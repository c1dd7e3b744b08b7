import BenchCover.Text.Pieces

/-!
# Paths

Paths as they are written on the command line and in messages: names with slashes between them.
-/

namespace BenchCover.Path

/-- The parts of a path between slashes.  Empty ones stand where a slash starts or ends the path or
follows another one. -/
def parts (path : String) : List String :=
  (Text.split ['/'] path.toList).map String.ofList

def isAbsolute (path : String) : Bool :=
  path.toList.head? = some '/'

def join (directory name : String) : String :=
  match directory.toList.getLast? with
  | none => name
  | some '/' => directory ++ name
  | some _ => directory ++ "/" ++ name

/-- The name that a path ends in, if it ends in a name: slashes at the end and parts `.` do not
count, and `..` is no name. -/
def finalName? (path : String) : Option String :=
  match ((parts path).filter fun part => part ≠ "" && part ≠ ".").getLast? with
  | none => none
  | some name => if name = ".." then none else some name

def absolute (names : List String) : String :=
  if names.isEmpty then "/" else String.join (names.map ("/" ++ ·))

end BenchCover.Path
