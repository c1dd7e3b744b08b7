import BenchCover.Dot.Document
import BenchCover.Files.Resolve
import BenchCover.Suite.Basic

/-!
# Loading suites

Every DOT file in the system directory stands for a configuration.  For each of them the graph of
the system benchmark is read, and after it, with the same registry, the graphs of all DOT files in
the micro directory that have the same configuration.

Files that are of no use are passed over with a warning:

* a file whose name does not tell a configuration;
* a micro benchmark whose text is refused, where the names met so far stay registered;
* a configuration that cannot be loaded for any reason but a directory that cannot be read.

Warnings come in the order of what they are about, and they are kept when loading fails.
-/

namespace BenchCover

open Dot

/-! ## Faults and warnings -/

structure DirectoryFault where
  path : String
  cause : FileFault
  deriving DecidableEq, Repr

def DirectoryFault.message (fault : DirectoryFault) : String :=
  s!"Failed to read directory {fault.path}: {fault.cause.message}"

inductive LoadFault where
  | directory (cause : DirectoryFault)
  | fileName (path : String) (cause : FileNameFault)
  | configMismatch (path : String) (expected found : RenderConfig)
  | document (cause : DocumentFault)

def LoadFault.message : LoadFault → String
  | directory cause => cause.message
  | fileName path cause => s!"Could not parse config of {path}: {cause.message}"
  | configMismatch path expected found =>
    s!"Config of {path} is {found.display}, expected {expected.display}"
  | document cause => cause.message

inductive MicroFault where
  | fileName (cause : FileNameFault)
  | document (cause : DocumentFault)
  deriving DecidableEq, Repr

def MicroFault.message : MicroFault → String
  | fileName cause => cause.message
  | document cause => cause.message

inductive LoadWarning where
  | untippedNode (path : String) (line : Nat)
  | systemFile (path : String) (cause : FileNameFault)
  | microFile (path : String) (cause : MicroFault)
  | configuration (path : String) (config : RenderConfig) (cause : LoadFault)

/-- The result of loading something, with the warnings on the way to it. -/
structure Loaded (ε α : Type) where
  warnings : List LoadWarning
  result : Except ε α

def Loaded.after {ε α : Type} (warnings : List LoadWarning) (loaded : Loaded ε α) : Loaded ε α :=
  { loaded with warnings := warnings ++ loaded.warnings }

/-! ## Files -/

def dotExtension : String := ".dot"

/-- **The DOT files in a directory**, as names with paths, in the order of the names. -/
def dotFiles (tree : FileTree) (directory : String) :
    Except DirectoryFault (List (String × String)) :=
  match tree.list directory with
  | .error cause => .error ⟨directory, cause⟩
  | .ok names =>
    let isDotFile (name : String) : Bool :=
      dotExtension.toList.isSuffixOf name.toList && tree.isFile (Path.join directory name)
    .ok (((names.filter isDotFile).mergeSort fun a b => decide (a ≤ b)).map fun name =>
      (name, Path.join directory name))

def readDotFile (tree : FileTree) (path : String) (registry : Registry) : Document.Outcome :=
  match tree.read path with
  | .error cause => { result := .error (.file path cause), registry, untipped := [] }
  | .ok bytes => Document.read path registry (Document.ofBytes bytes)

/-- The warnings about the nodes of a document that were passed over. -/
def untippedWarnings (path : String) (outcome : Document.Outcome) : List LoadWarning :=
  outcome.untipped.map (.untippedNode path)

/-! ## Micro benchmarks -/

/-- Micro benchmarks by file name, with the registry that knows their functions. -/
structure Micros where
  graphs : SortedMap String CallGraph
  registry : Registry

/-- Reads those of the files that have a configuration, after the micro benchmarks that were read
already. -/
def loadMicrosFrom (tree : FileTree) (config : RenderConfig) (micros : Micros) :
    List (String × String) → Loaded LoadFault Micros
  | [] => ⟨[], .ok micros⟩
  | (name, path) :: rest =>
    match FileName.parse name with
    | .error cause =>
      (loadMicrosFrom tree config micros rest).after [.microFile path (.fileName cause)]
    | .ok parsed =>
      if !parsed.config.agrees config then
        loadMicrosFrom tree config micros rest
      else
        let outcome := readDotFile tree path micros.registry
        let warnings := untippedWarnings path outcome
        match outcome.result with
        | .ok graph =>
          (loadMicrosFrom tree config
            ⟨micros.graphs.insert name graph, outcome.registry⟩ rest).after warnings
        | .error (.file path cause) => ⟨warnings, .error (.document (.file path cause))⟩
        | .error (.line file number cause) =>
          (loadMicrosFrom tree config { micros with registry := outcome.registry } rest).after
            (warnings ++ [.microFile path (.document (.line file number cause))])

/-- **Loads the micro benchmarks of a configuration** from a directory. -/
def loadMicros (tree : FileTree) (directory : String) (config : RenderConfig)
    (registry : Registry) : Loaded LoadFault Micros :=
  match dotFiles tree directory with
  | .error cause => ⟨[], .error (.directory cause)⟩
  | .ok files => loadMicrosFrom tree config ⟨.empty, registry⟩ files

/-! ## Suites -/

namespace Suite

/-- **Loads a suite**: the system benchmark in a file, whose name must tell the configuration, and
the micro benchmarks of that configuration in a directory. -/
def load (tree : FileTree) (systemFile microDirectory : String) (config : RenderConfig) :
    Loaded LoadFault Suite :=
  match FileName.parse ((Path.finalName? systemFile).getD "") with
  | .error cause => ⟨[], .error (.fileName systemFile cause)⟩
  | .ok name =>
    if !name.config.agrees config then
      ⟨[], .error (.configMismatch systemFile config name.config)⟩
    else
      let outcome := readDotFile tree systemFile .empty
      let warnings := untippedWarnings systemFile outcome
      match outcome.result with
      | .error cause => ⟨warnings, .error (.document cause)⟩
      | .ok systemGraph =>
        let loaded := loadMicros tree microDirectory config outcome.registry
        { warnings := warnings ++ loaded.warnings
          result := loaded.result.map fun micros =>
            { config
              system := name.base
              systemGraph
              micros := micros.graphs
              registry := micros.registry } }

/-- Loads a suite for each of the system files, as far as possible. -/
def loadFiles (tree : FileTree) (microDirectory : String) :
    List (String × String) → Loaded DirectoryFault (List Suite)
  | [] => ⟨[], .ok []⟩
  | (name, path) :: rest =>
    match FileName.parse name with
    | .error cause => (loadFiles tree microDirectory rest).after [.systemFile path cause]
    | .ok parsed =>
      let loaded := load tree path microDirectory parsed.config
      match loaded.result with
      | .ok suite =>
        let others := (loadFiles tree microDirectory rest).after loaded.warnings
        { others with result := others.result.map (suite :: ·) }
      | .error (.directory cause) => ⟨loaded.warnings, .error cause⟩
      | .error fault =>
        (loadFiles tree microDirectory rest).after
          (loaded.warnings ++ [.configuration path parsed.config fault])

/-- **Loads a suite for each configuration** in the system directory, in the order of the file
names. -/
def loadAll (tree : FileTree) (systemDirectory microDirectory : String) :
    Loaded DirectoryFault (List Suite) :=
  match dotFiles tree systemDirectory with
  | .error cause => ⟨[], .error cause⟩
  | .ok files => loadFiles tree microDirectory files

end Suite

end BenchCover
