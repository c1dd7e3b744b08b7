/-!
# Trees of files

The directories and files that a command sees, as a value: what is there at each place.

`FileTree.get?_set` is the law of all changes: what is put at a place is found there, and all
other places stay as they were.
-/

namespace BenchCover

/-- The names on the way from the root to a place in a tree. -/
abbrev Location := List String

inductive FileEntry where
  | directory
  | file (bytes : List UInt8)
  /-- A file that may not be opened. -/
  | locked
  | link (target : String)
  /-- A device that accepts no bytes, because it is always full. -/
  | fullDevice
  /-- A device that accepts all bytes and keeps none. -/
  | nullDevice
  deriving DecidableEq

/-- **A tree of files**, with the directory that relative paths start from.  There is one entry at
a place, and the root is a directory whether it is listed or not. -/
structure FileTree where
  entries : List (Location × FileEntry)
  places_nodup : (entries.map (·.1)).Nodup
  workingDirectory : Location

namespace FileTree

def getEntry? (place : Location) : List (Location × FileEntry) → Option FileEntry
  | [] => none
  | (location, entry) :: rest => if location = place then some entry else getEntry? place rest

theorem getEntry?_cons (place location : Location) (entry : FileEntry)
    (rest : List (Location × FileEntry)) : getEntry? place ((location, entry) :: rest) =
      if location = place then some entry else getEntry? place rest :=
  rfl

def get? (tree : FileTree) (place : Location) : Option FileEntry :=
  if place = [] then some .directory else getEntry? place tree.entries

/-- The entries with the one of a place changed, or added at the end. -/
def setEntry (place : Location) (entry : FileEntry) :
    List (Location × FileEntry) → List (Location × FileEntry)
  | [] => [(place, entry)]
  | (location, old) :: rest =>
    if location = place then (place, entry) :: rest
    else (location, old) :: setEntry place entry rest

theorem mem_places_setEntry {place other : Location} {entry : FileEntry}
    {entries : List (Location × FileEntry)}
    (h : other ∈ (setEntry place entry entries).map (·.1)) :
    other = place ∨ other ∈ entries.map (·.1) := by
  fun_induction setEntry place entry entries with
  | case1 => simpa using h
  | case2 => simp_all
  | case3 => simp_all; grind

theorem places_nodup_setEntry (place : Location) (entry : FileEntry)
    {entries : List (Location × FileEntry)} (nodup : (entries.map (·.1)).Nodup) :
    ((setEntry place entry entries).map (·.1)).Nodup := by
  fun_induction setEntry place entry entries with
  | case1 => simp
  | case2 old rest => simpa using nodup
  | case3 location old rest differ ih =>
    rw [List.map_cons, List.nodup_cons] at nodup ⊢
    refine ⟨fun mem => ?_, ih nodup.2⟩
    rcases mem_places_setEntry mem with same | mem
    · exact differ same
    · exact nodup.1 mem

def set (tree : FileTree) (place : Location) (entry : FileEntry) : FileTree :=
  { tree with
    entries := setEntry place entry tree.entries
    places_nodup := places_nodup_setEntry place entry tree.places_nodup }

/-- The tree with a directory at a place and at every place on the way to it, where nothing is
there yet. -/
def makeDirectory (tree : FileTree) (place : Location) : FileTree :=
  (List.range place.length).foldl
    (fun tree n =>
      let place := place.take (n + 1)
      if (tree.get? place).isNone then tree.set place .directory else tree)
    tree

/-- The tree with an entry put at a place, and with directories on the way to it. -/
def put (tree : FileTree) (place : Location) (entry : FileEntry) : FileTree :=
  (tree.makeDirectory place.dropLast).set place entry

/-- The tree in which there is nothing but the way to the working directory. -/
def empty (workingDirectory : Location) : FileTree :=
  let bare : FileTree := { entries := [], places_nodup := .nil, workingDirectory }
  bare.makeDirectory workingDirectory

theorem getEntry?_setEntry (place other : Location) (entry : FileEntry)
    (entries : List (Location × FileEntry)) :
    getEntry? other (setEntry place entry entries) =
      if place = other then some entry else getEntry? other entries := by
  induction entries with
  | nil => simp [setEntry, getEntry?]
  | cons first rest ih =>
    obtain ⟨location, old⟩ := first
    by_cases here : location = place
    · subst here
      by_cases same : location = other <;> simp [setEntry, getEntry?, same]
    · by_cases there : location = other
      · subst there
        simp [setEntry, getEntry?, here, Ne.symm here]
      · simp [setEntry, getEntry?, here, there, ih]

/-- **What is put at a place is found there**, and all other places stay as they were. -/
theorem get?_set {place : Location} (inside : place ≠ []) (tree : FileTree) (other : Location)
    (entry : FileEntry) :
    (tree.set place entry).get? other = if place = other then some entry else tree.get? other := by
  by_cases root : other = []
  · simp [get?, root, inside]
  · simp [get?, set, root, getEntry?_setEntry]

end FileTree

end BenchCover
