import BenchCover.Command.Config

/-!
# Command lines

What the arguments of the program ask for.  Arguments are looked at from left to right, and the
first that decides something decides it: a flag for help or the version, or one that cannot stand
where it stands.

* `--json` may be given once in front of the command and once behind it.
* After `--` every argument is a value.
* Any other argument with a dash in front is refused, except that the counts may start with a dash;
  a lone dash is a value.
-/

namespace BenchCover

inductive Request where
  | overlap (arguments : AnalysisArguments)
  | minimization (arguments : AnalysisArguments)
  | recommendation (arguments : AnalysisArguments) (counts : String)
  deriving DecidableEq, Repr

/-- **What a command line comes to.** -/
inductive CommandLine where
  | help
  | version
  | misuse
  | run (request : Request) (json : Bool)
  deriving DecidableEq, Repr

inductive Argument where
  /-- Two dashes alone. -/
  | valuesFollow
  /-- A flag with two dashes, and whether a value is attached to it by `=`. -/
  | long (name : List Char) (attached : Bool)
  /-- One-letter flags behind a single dash. -/
  | short (letters : List Char)
  | plain
  deriving DecidableEq, Repr

def Argument.ofString (argument : String) : Argument :=
  match argument.toList with
  | ['-', '-'] => .valuesFollow
  | '-' :: '-' :: flag => .long (flag.takeWhile (· != '=')) (flag.contains '=')
  | '-' :: c :: letters => .short (c :: letters)
  | _ => .plain

def jsonFlag : List Char := "json".toList

def helpFlag : List Char := "help".toList

def versionFlag : List Char := "version".toList

namespace CommandLine

/-! ## Behind the command -/

/-- The arguments behind a command, as far as they have been looked at. -/
structure Behind where
  values : List String
  json : Bool
  valuesFollow : Bool

/-- What can be decided about arguments behind a command. -/
inductive Decision where
  | help
  | misuse
  | values (values : List String) (json : Bool)

/-- How many values a command takes, and whether the last of them may start with a dash. -/
structure Shape where
  size : Nat
  lastMayStartWithDash : Bool

def Behind.dashAllowed (behind : Behind) (shape : Shape) : Bool :=
  shape.lastMayStartWithDash && behind.values.length + 1 = shape.size

def readValues (shape : Shape) (behind : Behind) : List String → Decision
  | [] => if behind.values.length = shape.size then .values behind.values behind.json else .misuse
  | argument :: rest =>
    let withValue : Unit → Decision := fun _ =>
      if behind.values.length < shape.size then
        readValues shape { behind with values := behind.values ++ [argument] } rest
      else
        .misuse
    if behind.valuesFollow then
      withValue ()
    else match Argument.ofString argument with
      | .valuesFollow => readValues shape { behind with valuesFollow := true } rest
      | .plain => withValue ()
      | .long flag attached =>
        if flag = jsonFlag then
          if attached || behind.json then .misuse
          else readValues shape { behind with json := true } rest
        else if flag = helpFlag then
          if attached then .misuse else .help
        else if behind.dashAllowed shape then withValue ()
        else .misuse
      | .short letters =>
        if behind.dashAllowed shape && letters.any (· != 'h') then withValue ()
        else if letters.head? = some 'h' then .help
        else .misuse

/-! ## In front of the command -/

def analysisOf? (name : String) : Option Analysis :=
  if name = "overlap" then some .overlap
  else if name = "minimization" || name = "minimize" then some .minimization
  else if name = "recommendation" || name = "recommend" then some .recommendation
  else none

def shapeOf : Analysis → Shape
  | .overlap => ⟨4, false⟩
  | .minimization => ⟨4, false⟩
  | .recommendation => ⟨5, true⟩

def requestOf? : Analysis → List String → Option Request
  | .overlap, [projects, system, micro, out] => some (.overlap ⟨projects, system, micro, out⟩)
  | .minimization, [projects, system, micro, out] =>
    some (.minimization ⟨projects, system, micro, out⟩)
  | .recommendation, [projects, system, micro, out, counts] =>
    some (.recommendation ⟨projects, system, micro, out⟩ counts)
  | _, _ => none

def ofAnalysis (analysis : Analysis) (json : Bool) (rest : List String) : CommandLine :=
  match readValues (shapeOf analysis) ⟨[], false, false⟩ rest with
  | .help => .help
  | .misuse => .misuse
  | .values values jsonBehind =>
    match requestOf? analysis values with
    | some request => .run request (json || jsonBehind)
    | none => .misuse

def helpCommand : String := "help"

def ofHelp : List String → CommandLine
  | [] => .help
  | [name] => if (analysisOf? name).isSome || name = helpCommand then .help else .misuse
  | _ => .misuse

def parseFrom (json : Bool) : List String → CommandLine
  | [] => .misuse
  | argument :: rest =>
    match Argument.ofString argument with
    | .valuesFollow => .misuse
    | .long flag attached =>
      if attached then .misuse
      else if flag = jsonFlag then if json then .misuse else parseFrom true rest
      else if flag = helpFlag then .help
      else if flag = versionFlag then .version
      else .misuse
    | .short letters =>
      if letters.head? = some 'h' then .help
      else if letters.head? = some 'V' then .version
      else .misuse
    | .plain =>
      if argument = helpCommand then ofHelp rest
      else match analysisOf? argument with
        | some analysis => ofAnalysis analysis json rest
        | none => .misuse

/-- **Reads a command line.** -/
def parse (arguments : List String) : CommandLine :=
  parseFrom false arguments

end CommandLine

end BenchCover
