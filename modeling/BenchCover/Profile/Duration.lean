import BenchCover.Number.Decimal

/-!
# Durations

Times of functions and calls, in nanoseconds, with the two texts they have: the one that profiles
print, a sequence of decimal numbers with units such as `1m30s`, which is read here, and the one in
the largest unit that fits, such as `1.5ms`, which is written here.

* `Duration.parse` — reads a duration below `2 ^ 64` nanoseconds.
* `Duration.display` — writes a duration without loss.
-/

namespace BenchCover

/- Powers are those of the core library, whatever else is imported. -/
attribute [local instance (high)] instPowNat

/-- A span of time in whole nanoseconds. -/
structure Duration where
  nanoseconds : Nat
  deriving DecidableEq, Repr, Inhabited

/-- Why a text is not read as a duration.  Every fault but the first names the whole text. -/
inductive DurationFault where
  | empty
  | invalid (text : String)
  | missingUnit (text : String)
  | unknownUnit (unit text : String)
  | negative (text : String)
  | overflow (text : String)
  deriving DecidableEq, Repr

def DurationFault.message : DurationFault → String
  | empty => "Empty duration"
  | invalid text => s!"Invalid duration '{text}'"
  | missingUnit text => s!"Missing unit in duration '{text}'"
  | unknownUnit unit text => s!"Unknown unit '{unit}' in duration '{text}'"
  | negative text => s!"Negative duration '{text}'"
  | overflow text => s!"Duration '{text}' overflows"

namespace Duration

def zero : Duration := ⟨0⟩

/-! ## Units -/

def microsecond : Nat := 1000

def millisecond : Nat := 1000 * microsecond

def second : Nat := 1000 * millisecond

def minute : Nat := 60 * second

def hour : Nat := 60 * minute

/-! ## Reading -/

/-- The units and their nanoseconds.  A microsecond may be written with the micro sign or with the
Greek letter. -/
def units : List (String × Nat) :=
  [("ns", 1), ("us", microsecond), ("\u00b5s", microsecond), ("\u03bcs", microsecond),
    ("ms", millisecond), ("s", second), ("m", minute), ("h", hour)]

def unitScale? (unit : List Char) : Option Nat :=
  units.lookup (String.ofList unit)

/-- A number with the unit after it.  The number is made of digits and points, and the unit of
anything else. -/
structure Segment where
  number : List Char
  unit : List Char
  deriving DecidableEq, Repr

def isNumeric (c : Char) : Bool :=
  c.isDigit || c = '.'

/-- The segments with one more character in front.  It joins the number of the first segment, or
its unit if that segment has no number; a unit in front of a number is a segment of its own. -/
def consSegment (c : Char) : List Segment → List Segment
  | [] => if isNumeric c then [⟨[c], []⟩] else [⟨[], [c]⟩]
  | first :: rest =>
    if isNumeric c then { first with number := c :: first.number } :: rest
    else if first.number.isEmpty then { first with unit := c :: first.unit } :: rest
    else ⟨[], [c]⟩ :: first :: rest

/-- **The numbers and units of a text, in turn.**  Only the first segment can lack a number and
only the last can lack a unit. -/
def segments : List Char → List Segment
  | [] => []
  | c :: rest => consSegment c (segments rest)

/-- The most digits of a fraction that count; any further ones are left out. -/
def fractionDigits : Nat := 18

/-- The least sum of whole parts that is refused on the way: it has 129 binary digits. -/
def sumLimit : Nat := UInt64.size * UInt64.size

/-- Adds the nanoseconds of one segment to those of the segments in front of it.  Parts of a
nanosecond are dropped.  The sum with a fraction is not checked again, and sums have no bound here:
a fraction that carries one past `sumLimit` ends in the fault `overflow`, where an addition of 128
binary digits stops or wraps around. -/
def addSegment (text : String) (total : Nat) (segment : Segment) : Except DurationFault Nat :=
  let (whole, fraction, rest) := Decimal.cutNumber segment.number
  if whole.isEmpty && fraction.isEmpty then
    .error (.invalid text)
  else if !rest.isEmpty || segment.unit.isEmpty then
    .error (.missingUnit text)
  else match unitScale? segment.unit with
    | none => .error (.unknownUnit (String.ofList segment.unit) text)
    | some scale =>
      let total := total + Decimal.ofDigits whole * scale
      let digits := fraction.take fractionDigits
      if sumLimit ≤ total then .error (.overflow text)
      else .ok (total + Decimal.ofDigits digits * scale / 10 ^ digits.length)

/-- Whether a text starts with a minus sign, and what follows its sign. -/
def cutSign : List Char → Bool × List Char
  | '-' :: rest => (true, rest)
  | '+' :: rest => (false, rest)
  | rest => (false, rest)

/-- **Reads a duration**: an optional sign, and then a lone `0` or one or more segments.  Only zero
may be negative, and the sum must be below `2 ^ 64` nanoseconds. -/
def parse (text : String) : Except DurationFault Duration :=
  let (negative, unsigned) := cutSign text.toList
  if unsigned = ['0'] then
    .ok zero
  else if unsigned.isEmpty then
    .error (if text.isEmpty then .empty else .invalid text)
  else do
    let total ← (segments unsigned).foldlM (addSegment text) 0
    if negative && total != 0 then .error (.negative text)
    else if UInt64.size ≤ total then .error (.overflow text)
    else .ok ⟨total⟩

/-! ## Writing -/

/-- A row of digits without the zeros at its end. -/
def dropTrailingZeros (digits : List Char) : List Char :=
  (digits.reverse.dropWhile (· = '0')).reverse

/-- A number of nanoseconds in a unit of `10 ^ places` of them. -/
def inUnit (places : Nat) (unit : String) (nanoseconds : Nat) : List Char :=
  let fraction := dropTrailingZeros (Decimal.padded places (nanoseconds % 10 ^ places))
  Nat.toDigits 10 (nanoseconds / 10 ^ places) ++
    (if fraction.isEmpty then [] else '.' :: fraction) ++ unit.toList

/-- **Writes a duration** in the largest of the units second, millisecond, microsecond and
nanosecond that goes into it, with all of its decimal places. -/
def display (duration : Duration) : String :=
  let n := duration.nanoseconds
  String.ofList <|
    if second ≤ n then inUnit 9 "s" n
    else if millisecond ≤ n then inUnit 6 "ms" n
    else if microsecond ≤ n then inUnit 3 "\u00b5s" n
    else inUnit 0 "ns" n

end Duration

end BenchCover
