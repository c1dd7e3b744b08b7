import BenchCover.Dot.Attribute
import BenchCover.Graph.Basic
import BenchCover.Profile.Duration
import BenchCover.Text.Pieces

/-!
# Statements

What a single line of a DOT document says, by itself.  Only lines that start with `N` say anything:

```
N1 [label="pkg\nFunc\n0.05s (1%)\nof 0.20s (4%)" tooltip="pkg.Func (0.20s)"]
N1 -> N2 [label=" 0.15s" weight=75 tooltip="pkg.Func -> pkg.Leaf (0.15s)"]
```

The first is a node: its tooltip has the name of the function and its label the times.  The second
is an edge, from one node to another.  Nodes are known by the identifiers in front of the attribute
list; what these stand for depends on the lines before, and is decided elsewhere.

* `Statement.ofLine` — reads a line.
* `Times.ofLabel` — the times in the label of a node.
-/

namespace BenchCover.Dot

/-! ## Faults -/

/-- Which time of a function a token was read as.  A leaf has one time for both. -/
inductive TimeKind where
  | self
  | total
  | leaf
  deriving DecidableEq, Repr

def TimeKind.name : TimeKind → String
  | self => "self"
  | total => "total"
  | leaf => "leaf"

inductive LineFault where
  | noAttributes (line : String)
  | noAttribute (name : String)
  | emptyName
  | noTimes (function label : String)
  | functionTime (function : String) (which : TimeKind) (token : String) (cause : DurationFault)
  | notTwoEndpoints (head : String)
  | unknownEndpoint (which : CallEnd) (identifier : String)
  | callTime (cause : DurationFault)
  | missingEnd (cause : MissingEnd)
  deriving DecidableEq, Repr

def LineFault.message : LineFault → String
  | noAttributes line => s!"no attribute list in '{line}'"
  | noAttribute name => s!"no '{name}' attribute"
  | emptyName => "empty function name in tooltip"
  | noTimes function label => s!"label '{label}' of function '{function}' has no timing"
  | functionTime function which token cause =>
    s!"could not parse {which.name} time '{token}' of function '{function}': {cause.message}"
  | notTwoEndpoints head => s!"could not split '{head}' into two endpoints"
  | unknownEndpoint which identifier => s!"{which.role} dot id '{identifier}' unknown"
  | callTime cause => s!"could not parse call time: {cause.message}"
  | missingEnd cause => cause.message

/-! ## Labels -/

/-- The mark for a line break inside a label: a backslash and an `n`. -/
def lineBreak : List Char := ['\\', 'n']

/-- The words of a label.  Line breaks and single spaces stand between them. -/
def labelWords (label : List Char) : List (List Char) :=
  Text.split [' '] (Text.replace lineBreak [' '] label)

structure Times where
  selfTime : Duration
  totalTime : Duration
  deriving DecidableEq, Repr

def readTime (function : String) (which : TimeKind) (token : List Char) :
    Except LineFault Duration :=
  (Duration.parse (String.ofList token)).mapError
    (.functionTime function which (String.ofList token))

/-- The word with the time of a function itself, among the words in front of the total time, the
last of them first.  A share in brackets is passed over. -/
def selfWord? : List (List Char) → Option (List Char)
  | ('(' :: _) :: earlier => earlier.head?
  | words => words.head?

/-- **The times in the label of a node.**  The label of a function that calls others ends in
`<self> (<share>) of <total> (<share>)`, where the first share may be missing, and that of a leaf in
`<time> (<share>)`. -/
def Times.ofLabel (function : String) (label : List Char) : Except LineFault Times :=
  match (labelWords label).reverse with
  | _ :: total :: ['o', 'f'] :: self :: earlier => do
    let totalTime ← readTime function .total total
    match selfWord? (self :: earlier) with
    | none => .error (.noTimes function (String.ofList label))
    | some self =>
      let selfTime ← readTime function .self self
      return { selfTime, totalTime }
  | _ :: time :: _ => do
    let time ← readTime function .leaf time
    return { selfTime := time, totalTime := time }
  | _ => .error (.noTimes function (String.ofList label))

/-- The time in the label of an edge is its first word. -/
def callTime (label : List Char) : Except LineFault Duration :=
  let word := (labelWords (Text.trim label)).headD []
  (Duration.parse (String.ofList word)).mapError .callTime

/-! ## Lines -/

/-- **What a line says.**  The time of an edge is kept together with what is wrong with it, because
the ends of an edge are looked at before its time. -/
inductive Statement where
  | nothing
  /-- A node that is not told from a tooltip. -/
  | untipped
  | node (identifier : List Char) (function : String) (times : Times)
  | edge (caller callee : List Char) (time : Except LineFault Duration)

namespace Statement

def required (name : String) (list : List Char) : Except LineFault (List Char) :=
  match attribute? name list with
  | some value => .ok value
  | none => .error (.noAttribute name)

/-- Reads the attributes of a node.  The tooltip is the name of the function up to the first space,
and what follows it does not matter. -/
def ofNode (identifier list : List Char) : Except LineFault Statement := do
  let tooltip ← required "tooltip" list
  let name := Text.trim (tooltip.takeWhile (· != ' '))
  if name.isEmpty then
    .error .emptyName
  else
    let function := String.ofList name
    let label ← required "label" list
    let times ← Times.ofLabel function label
    return .node identifier function times

def arrow : List Char := ['-', '>']

def ofEdge (head list : List Char) : Except LineFault Statement :=
  match (Text.split arrow head).map Text.trim with
  | [caller, callee] =>
    .ok (.edge caller callee ((required "label" list).bind callTime))
  | _ => .error (.notTwoEndpoints (String.ofList head))

/-- The line without the abbreviated type arguments of generic functions, which would be taken for
the start of the attribute list. -/
def withoutTypeArguments (line : List Char) : List Char :=
  Text.replace "[...]".toList [] (Text.replace "[\u2026]".toList [] line)

/-- **Reads a line.**  The attribute list starts at the first bracket; an arrow in front of it makes
the line an edge. -/
def ofLine (line : List Char) : Except LineFault Statement :=
  if line.head? != some 'N' then
    .ok .nothing
  else
    let line := withoutTypeArguments line
    match Text.cutFirst '[' line with
    | none => .error (.noAttributes (String.ofList (Text.trim line)))
    | some (head, list) =>
      let head := Text.trim head
      let list := Text.trim list
      if Text.contains arrow head then ofEdge head list
      else if !Text.contains "tooltip".toList list then .ok .untipped
      else ofNode head list

end Statement

end BenchCover.Dot
