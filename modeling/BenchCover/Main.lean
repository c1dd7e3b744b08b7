import BenchCover.Command.Program

/-!
# The executable

The program at work on the real files.  What the three directories of an analysis hold is taken into
a tree of files, the program runs on the tree, and the files that it changed are written back.

Nothing is decided here: links are followed by the operating system while the tree is taken, and
everything else is decided by `runProgram`.
-/

namespace BenchCover.Executable

/-! ## Taking in files -/

/-- The place of a path from the root that has no links in it. -/
def placeOf (path : String) : Location :=
  (Path.parts path).filter (· ≠ "")

def device? : String → Option FileEntry
  | "/dev/full" => some .fullDevice
  | "/dev/null" => some .nullDevice
  | _ => none

/-- Takes in what is at a place, and tells where it really is: behind a link that is where the link
leads to.  Places where nothing is stay empty. -/
def takeEntry (tree : FileTree) (place : Location) : IO (FileTree × Option Location) := do
  let path := Path.absolute place
  match ← (IO.FS.realPath path).toBaseIO with
  | .error _ => return (tree, none)
  | .ok real =>
    let target := placeOf real.toString
    let tree := if target = place then tree else tree.put place (.link real.toString)
    if ← real.isDir then
      return (tree.makeDirectory target, some target)
    else if let some device := device? real.toString then
      return (tree.put target device, some target)
    else
      let isRegular := match (← real.metadata).type with
        | .file => true
        | _ => false
      if isRegular then
        match ← (IO.FS.readBinFile real).toBaseIO with
        | .ok bytes => return (tree.put target (.file bytes.toList), some target)
        | .error _ => return (tree.put target .locked, some target)
      else
        return (tree.put target (.file []), some target)

/-- Takes in everything on the way along a path, and what is in the directory at its end. -/
def takeDirectory (start : FileTree) (path : String) : IO FileTree := do
  let mut tree := start
  let mut place := if Path.isAbsolute path then [] else start.workingDirectory
  for part in Path.parts path do
    if part = ".." then
      place := place.dropLast
    else if part ≠ "" && part ≠ "." then
      let (found, target) ← takeEntry tree (place ++ [part])
      tree := found
      match target with
      | some target => place := target
      | none => return tree
  let directory ← IO.FS.realPath (Path.absolute place)
  if ← directory.isDir then
    for entry in ← directory.readDir do
      let (found, _) ← takeEntry tree (place ++ [entry.fileName])
      tree := found
  return tree

def directories : Request → List String
  | .overlap arguments => paths arguments
  | .minimization arguments => paths arguments
  | .recommendation arguments _ => paths arguments
where
  paths (arguments : AnalysisArguments) : List String :=
    [arguments.systemDirectory, arguments.microDirectory, arguments.outDirectory]

/-- The tree of files that a command line works on. -/
def takeTree (commandLine : CommandLine) : IO FileTree := do
  let start := FileTree.empty (placeOf (← IO.currentDir).toString)
  match commandLine with
  | .run request _ => (directories request).foldlM takeDirectory start
  | _ => return start

/-! ## Giving back files -/

def writeChanges (before after : FileTree) : IO Unit := do
  for (place, entry) in after.entries do
    match entry with
    | .file bytes =>
      if before.get? place ≠ some entry then
        IO.FS.writeBinFile (Path.absolute place) ⟨bytes.toArray⟩
    | _ => pure ()

def warningLine (warning : Warning) : String :=
  let notice := warning.notice
  let details := notice.details.map fun (key, value) => s!" {key}={value}"
  s!"WARN {notice.message}" ++ String.join details

def run (arguments : List String) : IO UInt32 := do
  let commandLine := CommandLine.parse arguments
  let tree ← takeTree commandLine
  let result := runProgram arguments tree
  writeChanges tree result.tree
  for warning in result.warnings do
    IO.eprintln (warningLine warning)
  IO.print result.output
  if commandLine = .misuse then
    IO.eprint usage
  match result.error with
  | some message => IO.eprintln s!"Error: {message}"
  | none => pure ()
  return result.exitCode.toUInt32

end BenchCover.Executable

def main (arguments : List String) : IO UInt32 :=
  BenchCover.Executable.run arguments
