import BenchCover.Dot.Statement
import BenchCover.Files.Fault
import BenchCover.Text.Lines

/-!
# Documents

Reading a DOT document line by line into a call graph.  The names of functions are registered as
they are met, and stay registered when a later line is refused.

* `Reading.apply` — what a statement adds to what the lines before it have said.
* `Document.read` — reads lines up to the first one that is refused.
* `Document.ofText`, `Document.ofBytes` — the lines of a text and of a file.
-/

namespace BenchCover.Dot

/-! ## Faults -/

inductive DocumentFault where
  | file (path : String) (cause : FileFault)
  | line (path : String) (number : Nat) (cause : LineFault)
  deriving DecidableEq, Repr

def DocumentFault.message : DocumentFault → String
  | file path cause => s!"Failed to read dot file {path}: {cause.message}"
  | line path number cause => s!"Invalid dot file {path}, line {number}: {cause.message}"

/-! ## Applying statements -/

/-- **What the lines so far have said.** -/
structure Reading where
  graph : CallGraph
  /-- The functions that node identifiers stand for, the latest first. -/
  identifiers : List (List Char × FunctionId)
  registry : Registry
  /-- The numbers of the lines with nodes that were passed over for want of a tooltip. -/
  untipped : List Nat

namespace Reading

/-- Nothing has been read, and some names are known already. -/
def start (registry : Registry) : Reading where
  graph := .empty
  identifiers := []
  registry
  untipped := []

def resolve (reading : Reading) (which : CallEnd) (identifier : List Char) :
    Except LineFault FunctionId :=
  match reading.identifiers.lookup identifier with
  | some id => .ok id
  | none => .error (.unknownEndpoint which (String.ofList identifier))

/-- Adds the function of a node.  If the graph has the function already, the new times are
dropped, but the identifier stands for the function from here on. -/
def addNode (reading : Reading) (identifier : List Char) (function : String) (times : Times) :
    Reading :=
  let (registry, f) :=
    Function.register reading.registry function times.selfTime times.totalTime
  { reading with
    graph := reading.graph.addFunction f
    identifiers := (identifier, f.id) :: reading.identifiers
    registry }

/-- Adds the call of an edge, or replaces the one that joins the same functions. -/
def addEdge (reading : Reading) (caller callee : List Char) (time : Except LineFault Duration) :
    Except LineFault Reading := do
  let caller ← reading.resolve .caller caller
  let callee ← reading.resolve .callee callee
  let time ← time
  let graph ← (reading.graph.setCall { caller, callee, time }).mapError .missingEnd
  return { reading with graph }

/-- **What a statement adds**, where `number` is the number of its line. -/
def apply (reading : Reading) (number : Nat) : Statement → Except LineFault Reading
  | .nothing => .ok reading
  | .untipped => .ok { reading with untipped := reading.untipped ++ [number] }
  | .node identifier function times => .ok (reading.addNode identifier function times)
  | .edge caller callee time => reading.addEdge caller callee time

def readLine (reading : Reading) (number : Nat) (line : List Char) : Except LineFault Reading :=
  (Statement.ofLine line).bind (reading.apply number)

end Reading

/-! ## Reading documents -/

namespace Document

/-- What reading a document gives: the graph or a fault, and in either case the names that are
known afterwards and the lines with nodes that were passed over. -/
structure Outcome where
  result : Except DocumentFault CallGraph
  registry : Registry
  untipped : List Nat

/-- The lines of a document.  A line of a file that is not valid UTF-8 is `none`. -/
abbrev Lines := List (Option (List Char))

def finish (reading : Reading) (result : Except DocumentFault CallGraph) : Outcome where
  result
  registry := reading.registry
  untipped := reading.untipped

/-- Reads the lines from number `number` on. -/
def readFrom (path : String) (number : Nat) (reading : Reading) : Lines → Outcome
  | [] => finish reading (.ok reading.graph)
  | none :: _ => finish reading (.error (.file path .notText))
  | some line :: rest =>
    match reading.readLine number line with
    | .error cause => finish reading (.error (.line path number cause))
    | .ok reading => readFrom path (number + 1) reading rest

/-- **Reads a document**, where `path` is what its faults call it.  Lines are numbered from
one. -/
def read (path : String) (registry : Registry) (lines : Lines) : Outcome :=
  readFrom path 1 (.start registry) lines

def ofText (text : String) : Lines :=
  (Text.lines .characters text.toList).map some

def ofBytes (bytes : List UInt8) : Lines :=
  (Text.lines .bytes bytes).map decode
where
  /-- The characters of a line, if it is valid UTF-8. -/
  decode (line : List UInt8) : Option (List Char) :=
    (String.fromUTF8? ⟨line.toArray⟩).map String.toList

def inMemory : String := "<memory>"

end Document

end BenchCover.Dot
