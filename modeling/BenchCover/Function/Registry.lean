import BenchCover.Text.Blank

/-!
# Names and ids of functions

A registry hands out the ids `0, 1, 2, …` to the names of functions, in the order in which the
names are first met.  All graphs of one suite are read with one registry, so that a function has
the same id in each of them.

Names are trimmed on the way in: names that differ in blanks around them are one name.
`lookup?_eq_some_iff` says that an id is found under a name exactly if the name is found under the
id.

The list of names is what there is to say about a registry.  How it is kept, with a counter and two
maps, is `NameTable`.  `NameTable.Represents` relates the two: they are changed alike and answer
alike.
-/

namespace BenchCover

/-- The id of a function.  Registries hand out ids from `0`; a negative one is nobody's. -/
abbrev FunctionId := Int

/-- An id that was asked for and that no name has. -/
structure UnknownFunction where
  id : FunctionId
  deriving DecidableEq, Repr

def UnknownFunction.message (fault : UnknownFunction) : String :=
  s!"Unknown function id {fault.id}"

/-- **A registry of function names**: the name at position `n` has the id `n`. -/
structure Registry where
  names : List String
  nodup : names.Nodup
  trimmed : ∀ name ∈ names, Text.trimmed name = name

namespace Registry

def empty : Registry := ⟨[], .nil, by simp⟩

instance : Inhabited Registry := ⟨empty⟩

def size (registry : Registry) : Nat :=
  registry.names.length

/-- The id of a name, if it is known. -/
def lookup? (registry : Registry) (name : String) : Option FunctionId :=
  (registry.names.findIdx? (· = Text.trimmed name)).map Int.ofNat

def name (registry : Registry) : FunctionId → Except UnknownFunction String
  | .ofNat n => match registry.names[n]? with
    | some name => .ok name
    | none => .error ⟨.ofNat n⟩
  | .negSucc n => .error ⟨.negSucc n⟩

/-- The registry after a name was met, and the id of the name: a name that is not known gets the
next free id. -/
def register (registry : Registry) (name : String) : Registry × FunctionId :=
  if known : Text.trimmed name ∈ registry.names then
    (registry, Int.ofNat (registry.names.findIdx (· = Text.trimmed name)))
  else
    ({ names := registry.names ++ [Text.trimmed name]
       nodup := by
        rw [List.nodup_append]
        refine ⟨registry.nodup, by simp, fun a mem b new same => known ?_⟩
        rwa [← List.mem_singleton.1 new, ← same]
       trimmed := by
        simpa [or_imp, forall_and] using registry.trimmed },
      Int.ofNat registry.names.length)

/-- The registry after each of the names was met in turn. -/
def registerAll (registry : Registry) (names : List String) : Registry × List FunctionId :=
  names.foldl
    (fun (registry, ids) name =>
      let (registry, id) := registry.register name
      (registry, ids ++ [id]))
    (registry, [])

/-! ## Laws -/

theorem findIdx_getElem {names : List String} (nodup : names.Nodup) {n : Nat}
    (h : n < names.length) : names.findIdx (· = names[n]) = n := by
  rw [List.findIdx_eq h]
  refine ⟨by simp, fun m lt => ?_⟩
  simpa using (List.pairwise_iff_getElem.1 nodup) m n (by omega) h lt

/-- **An id is found under a name exactly if the name, trimmed, is found under the id.** -/
theorem lookup?_eq_some_iff {registry : Registry} {name : String} {id : FunctionId} :
    registry.lookup? name = some id ↔ registry.name id = .ok (Text.trimmed name) := by
  cases id with
  | negSucc n => simp [lookup?, Registry.name]
  | ofNat n =>
    simp only [lookup?, Registry.name, Option.map_eq_some_iff, Int.ofNat.injEq]
    constructor
    · rintro ⟨m, found, rfl⟩
      obtain ⟨lt, same, -⟩ := List.findIdx?_eq_some_iff_getElem.1 found
      simp_all
    · intro found
      refine ⟨n, ?_, rfl⟩
      cases h : registry.names[n]? with
      | none => simp [h] at found
      | some other =>
        simp only [h, Except.ok.injEq] at found
        obtain ⟨lt, rfl⟩ := List.getElem?_eq_some_iff.1 h
        rw [List.findIdx?_eq_some_iff_findIdx_eq, ← found]
        exact ⟨lt, findIdx_getElem registry.nodup lt⟩

end Registry

end BenchCover
