import BenchCover.Number.Literal
import BenchCover.Text.Pieces

/-!
# Rendering configurations

A profile is rendered with a limit on the number of nodes and with two cut-offs, and the name of
the rendered file ends in these settings:

```
<base>__<node count>__<node fraction>__<edge fraction>.<format>
bench__100000__0_00500__0_00100.dot
```

The fractions are written with `_` for the point, so that the name has a single point.

* `RenderConfig.suffix` — the end of the names of the files of a configuration.
* `FileName.parse` — takes a name apart into its base and its configuration.
-/

namespace BenchCover

/-! ## Output formats -/

inductive OutputFormat where
  | dot
  | svg
  | text
  | gv
  | ps
  | gif
  deriving DecidableEq, Repr

namespace OutputFormat

/-- The formats, in no particular order. -/
def all : List OutputFormat := [dot, svg, text, gv, ps, gif]

def name : OutputFormat → String
  | dot => "dot"
  | svg => "svg"
  | text => "text"
  | gv => "gv"
  | ps => "ps"
  | gif => "gif"

def ofName? (name : String) : Option OutputFormat :=
  all.find? (·.name = name)

/-- A format is found under its own extension. -/
@[simp] theorem ofName?_name (format : OutputFormat) : ofName? format.name = some format := by
  cases format <;> decide

end OutputFormat

/-! ## Configurations -/

/-- **The settings that a profile was rendered with.** -/
structure RenderConfig where
  format : OutputFormat
  nodeCount : UInt64
  /-- Nodes below this share of the whole are dropped. -/
  nodeFraction : Binary64
  /-- Edges below this share of the whole are dropped. -/
  edgeFraction : Binary64

/-- What stands between the base of a file name and each setting. -/
def settingSeparator : String := "__"

def fractionPlaces : Nat := 5

def fractionText (x : Binary64) : String :=
  String.ofList (x.fixed fractionPlaces)

namespace RenderConfig

/-- Whether two configurations have the same settings.  A fraction that is no number agrees with
nothing, so that such a configuration does not even match itself. -/
def agrees (a b : RenderConfig) : Bool :=
  a.format = b.format && a.nodeCount = b.nodeCount &&
    a.nodeFraction.sameValue b.nodeFraction && a.edgeFraction.sameValue b.edgeFraction

def nodeCountText (config : RenderConfig) : String :=
  toString config.nodeCount.toNat

/-- The text with every point replaced by the mark that stands for it in file names. -/
def withoutPoints (text : List Char) : List Char :=
  text.map fun c => if c = '.' then '_' else c

/-- **The end of the file names of a configuration**: its settings and the extension. -/
def suffix (config : RenderConfig) : String :=
  let settings := settingSeparator.toList.intercalate
    [Nat.toDigits 10 config.nodeCount.toNat, config.nodeFraction.fixed fractionPlaces,
      config.edgeFraction.fixed fractionPlaces]
  String.ofList (withoutPoints settings ++ '.' :: config.format.name.toList)

def display (config : RenderConfig) : String :=
  s!"type={config.format.name} node_count={config.nodeCountText} " ++
    s!"node_fraction={fractionText config.nodeFraction} " ++
    s!"edge_fraction={fractionText config.edgeFraction}"

end RenderConfig

/-! ## File names -/

inductive FileNameFault where
  | tooFewParts (fileName : String) (found : Nat)
  | nodeCount (fileName : String) (cause : IntegerFault)
  | nodeFraction (fileName : String) (cause : LiteralFault)
  | edgeFraction (fileName : String) (cause : LiteralFault)
  | missingExtension (fileName : String)
  | unknownFormat (extension : String)
  deriving DecidableEq, Repr

def FileNameFault.message : FileNameFault → String
  | tooFewParts fileName found =>
    s!"Could not parse '{fileName}': expected at least 4 '__'-separated parts, got {found}"
  | nodeCount fileName cause =>
    s!"Could not parse node count in '{fileName}': {cause.message}"
  | nodeFraction fileName cause =>
    s!"Could not parse node fraction in '{fileName}': {cause.message}"
  | edgeFraction fileName cause =>
    s!"Could not parse edge fraction in '{fileName}': {cause.message}"
  | missingExtension fileName => s!"Missing output type extension in '{fileName}'"
  | unknownFormat extension => s!"Invalid output type '{extension}'"

structure FileName where
  base : String
  config : RenderConfig

namespace FileName

/-- The text with every mark for a point replaced by the point. -/
def withPoints (text : List Char) : List Char :=
  text.map fun c => if c = '_' then '.' else c

def readFraction (text : List Char) : Except LiteralFault Binary64 :=
  Binary64.read (withPoints text)

def readFormat (extension : String) : Except FileNameFault OutputFormat :=
  match OutputFormat.ofName? extension with
  | some format => .ok format
  | none => .error (.unknownFormat extension)

/-- Reads the settings of a name from the last three of its parts.  Of two faults the one that is
further to the left counts, except that a missing extension counts before a wrong fraction in
front of it. -/
def readConfig (fileName : String) (nodeCount nodeFraction edge : List Char) :
    Except FileNameFault RenderConfig := do
  let nodeCount ← (Decimal.readUInt64 nodeCount).mapError (.nodeCount fileName)
  let nodeFraction ← (readFraction nodeFraction).mapError (.nodeFraction fileName)
  match Text.cutLast '.' edge with
  | none => .error (.missingExtension fileName)
  | some (edgeFraction, extension) =>
    let edgeFraction ← (readFraction edgeFraction).mapError (.edgeFraction fileName)
    let format ← readFormat (String.ofList extension)
    return { format, nodeCount, nodeFraction, edgeFraction }

/-- **Takes a file name apart.**  The last three of its parts are the settings, and the parts in
front of them, of which there is at least one, are the base. -/
def parse (fileName : String) : Except FileNameFault FileName :=
  let parts := Text.split settingSeparator.toList fileName.toList
  match parts.reverse with
  | edge :: nodeFraction :: nodeCount :: base :: earlier => do
    let config ← readConfig fileName nodeCount nodeFraction edge
    let base := Text.join settingSeparator.toList (base :: earlier).reverse
    return { base := String.ofList base, config }
  | _ => .error (.tooFewParts fileName parts.length)

end FileName

end BenchCover
