import BenchCover.Function.Registry
import BenchCover.Sorted.Map

/-!
# Tables of names

A table keeps the names of functions in two maps, one from ids to names and one from names to ids,
and a counter that holds the next free id.  A name is trimmed before it is looked up and before it
is put into the maps.

* `NameTable.register` — the id of a name, which is given to the name if it is new.
* `NameTable.name`, `NameTable.lookup`, `NameTable.size` — what is asked.
* `NameTable.copy` — a table of its own with the same counter and the same maps.

Tables are changed in place.  What an operation is when it is run tells the answer together with the
table that it leaves behind.  `Registry` has the same names in one list, where the place of a name
is its id.
-/

namespace BenchCover

/-- **A table of names.**  The counter has no bound, and the order of the maps is never seen. -/
structure NameTable where
  next : FunctionId
  nameOf : SortedMap FunctionId String
  idOf : SortedMap String FunctionId

namespace NameTable

/-- The table without names. -/
def empty : NameTable := ⟨0, .empty, .empty⟩

/-- **The id of a name**; a new name gets the next free id. -/
def register (name : String) : StateM NameTable FunctionId := do
  let name := Text.trimmed name
  if let some id := (← get).idOf.lookup name then
    return id
  -- The table is taken for writing only now, and is looked at once more.
  if let some id := (← get).idOf.lookup name then
    return id
  let id := (← get).next
  modify fun table =>
    { next := table.next + 1
      nameOf := table.nameOf.insert id name
      idOf := table.idOf.insert name id }
  return id

def name (id : FunctionId) : StateM NameTable (Except UnknownFunction String) := do
  match (← get).nameOf.lookup id with
  | some name => return .ok name
  | none => return .error ⟨id⟩

/-- The id of a name, if it has one. -/
def lookup (name : String) : StateM NameTable (Option FunctionId) := do
  return (← get).idOf.lookup (Text.trimmed name)

def size : StateM NameTable Nat := do
  return (← get).nameOf.size

def copy : StateM NameTable NameTable := do
  let table ← get
  return { next := table.next, nameOf := table.nameOf, idOf := table.idOf }

end NameTable

end BenchCover
