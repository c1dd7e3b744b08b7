import BenchCover.Files.Resolve
import BenchCover.Report.Basic

/-!
# Writing reports

Reports are written into a tree of files row by row, so that a report that ends early leaves
complete rows behind.

* `FileTree.openOutput` — opens a file, fresh or to be continued.
* `FileTree.write` — writes a report at the end of an opened file.

A row is gathered in a buffer and handed on when it is complete.  Of a row that does not fit into
the buffer the start is handed on while the rest is still being made.
-/

namespace BenchCover.FileTree

/-- **Opens a file for output** and gives its place.  A file that is not there is created; one that
is there is emptied if the output is to be fresh. -/
def openOutput (tree : FileTree) (path : String) (fresh : Bool) :
    Except FileFault (FileTree × Location) := do
  match ← tree.walk .writing path with
  | .present place (.file _) => return (if fresh then tree.set place (.file []) else tree, place)
  | .present _ .locked => throw .permissionDenied
  | .present _ .directory => throw .isADirectory
  | .present place _ => return (tree, place)
  | .vacant place => return (tree.set place (.file []), place)

def appendBytes (tree : FileTree) (place : Location) (bytes : List UInt8) :
    Except FileFault FileTree :=
  match tree.get? place with
  | some (.file before) => .ok (tree.set place (.file (before ++ bytes)))
  | some .nullDevice => .ok tree
  | _ => .error .noSpaceLeft

/-- How many bytes of a row are gathered before they are handed on. -/
def bufferSize : Nat := 8192

/-- Why a row is not written, by when its first bytes were handed on. -/
def rowFault (bytes : List UInt8) (cause : FileFault) : ReportFault :=
  if bufferSize < bytes.length then .record cause else .flush cause

/-- Adds rows at the end of an opened file, one by one, until one cannot be written. -/
def writeRows (tree : FileTree) (place : Location) : List Row → FileTree × Option ReportFault
  | [] => (tree, none)
  | row :: rest =>
    let bytes := (String.ofList row.encode).toUTF8.toList
    match tree.appendBytes place bytes with
    | .error cause => (tree, some (rowFault bytes cause))
    | .ok tree => tree.writeRows place rest

/-- **Writes a report** at the end of an opened file.  The rows before a fault are written. -/
def write (tree : FileTree) (place : Location) (report : Report) :
    FileTree × Option ReportFault :=
  let (tree, fault) := tree.writeRows place report.rows
  (tree, fault.or report.fault)

end BenchCover.FileTree
