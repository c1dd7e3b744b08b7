import BenchCover.Files.Fault
import BenchCover.Files.Path
import BenchCover.Files.Tree

/-!
# Resolving paths

Where a path leads in a tree of files, name by name: `.` stays, `..` goes up, and a symbolic link is
followed to where it points, up to a limit of links.  Names and paths have limits too.

* `FileTree.walk` — what a path leads to, and `FileTree.resolve` for those who only look there.
* `FileTree.canonical` — the path from the root to the same place.
* `FileTree.list`, `FileTree.read` — the names in a directory and the bytes of a file.
-/

namespace BenchCover.FileTree

inductive Target where
  | present (place : Location) (entry : FileEntry)
  /-- Nothing is at the place, but the directory around it is there. -/
  | vacant (place : Location)

inductive Access where
  | looking
  /-- To write a file, whether it is there already or not. -/
  | writing
  /-- To tell the path from the root.  Every place on the way is looked up by its own such path. -/
  | naming
  deriving DecidableEq, Repr

/-! ## Limits -/

/-- How many links are followed on the way along one path. -/
def linkLimit : Nat := 40

def nameLimit : Nat := 255

def pathLimit : Nat := 4095

/-- Why a path cannot be followed, whatever the tree is. -/
def pathFault? (path : String) : Option FileFault :=
  if Char.ofNat 0 ∈ path.toList then some .nulInName
  else if path.isEmpty then some .noSuchFile
  else if pathLimit < path.utf8ByteSize then some .nameTooLong
  else none

/-- Why a name cannot be looked up in the directory at a place, whatever is in it.  Behind the name
are the parts that are left: if they are nothing but slashes, the name must be that of a directory,
which is not for writing. -/
def nameFault? (access : Access) (place : Location) (name : String) (left : List String) :
    Option FileFault :=
  if access = .writing ∧ left ≠ [] ∧ left.all (· = "") then some .isADirectory
  else if nameLimit < name.utf8ByteSize then some .nameTooLong
  else if access = .naming ∧ pathLimit < (Path.absolute (place ++ [name])).utf8ByteSize then
    some .nameTooLong
  else none

/-! ## Following a path -/

def startOf (path : String) (place : Location) : Location :=
  if Path.isAbsolute path then [] else place

/-- Goes along the parts of a path, from a place on.  The target of a link is put in front of the
parts that are left. -/
def follow (tree : FileTree) (access : Access) (links : Nat) (place : Location)
    (parts : List String) : Except FileFault Target :=
  match parts with
  | [] => match tree.get? place with
    | some entry => .ok (.present place entry)
    | none => .error .noSuchFile
  | part :: rest =>
    if tree.get? place ≠ some .directory then .error .notADirectory
    else if part = "" || part = "." then tree.follow access links place rest
    else if part = ".." then tree.follow access links place.dropLast rest
    else match nameFault? access place part rest with
      | some fault => .error fault
      | none => match tree.get? (place ++ [part]) with
        | none => if rest.isEmpty then .ok (.vacant (place ++ [part])) else .error .noSuchFile
        | some (.link target) => match links with
          | 0 => .error .tooManyLinks
          | links + 1 =>
            tree.follow access links (startOf target place) (Path.parts target ++ rest)
        | some _ => tree.follow access links (place ++ [part]) rest
termination_by (links, parts.length)

/-- **What a path leads to** for those who follow it for a purpose.  The empty path leads
nowhere. -/
def walk (tree : FileTree) (access : Access) (path : String) : Except FileFault Target :=
  match pathFault? path with
  | some fault => .error fault
  | none =>
    tree.follow access linkLimit (startOf path tree.workingDirectory) (Path.parts path)

def resolve (tree : FileTree) (path : String) : Except FileFault Target :=
  tree.walk .looking path

/-- **The path from the root** to what a path leads to, without links in it. -/
def canonical (tree : FileTree) (path : String) : Except FileFault String := do
  match ← tree.walk .naming path with
  | .present place _ => return Path.absolute place
  | .vacant _ => throw .noSuchFile

/-- A path from the root that leads where a path leads, written with the names of that path. -/
def rooted (tree : FileTree) (path : String) : String :=
  if Path.isAbsolute path then path else Path.join (Path.absolute tree.workingDirectory) path

/-! ## Reading -/

/-- The names in the directory at a place, in no particular order. -/
def namesAt (tree : FileTree) (place : Location) : List String :=
  tree.entries.filterMap fun (location, _) =>
    if location ≠ [] && location.dropLast = place then location.getLast? else none

/-- **The names in a directory.** -/
def list (tree : FileTree) (path : String) : Except FileFault (List String) := do
  match ← tree.resolve path with
  | .present place .directory => return tree.namesAt place
  | .present _ _ => throw .notADirectory
  | .vacant _ => throw .noSuchFile

/-- **The bytes of a file.** -/
def read (tree : FileTree) (path : String) : Except FileFault (List UInt8) := do
  match ← tree.resolve path with
  | .present _ (.file bytes) => return bytes
  | .present _ .locked => throw .permissionDenied
  | .present _ .directory => throw .isADirectory
  | .present _ _ => return []
  | .vacant _ => throw .noSuchFile

def isFile (tree : FileTree) (path : String) : Bool :=
  match tree.resolve path with
  | .ok (.present _ (.file _)) | .ok (.present _ .locked) => true
  | _ => false

end BenchCover.FileTree
