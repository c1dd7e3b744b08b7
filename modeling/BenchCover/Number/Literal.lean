import BenchCover.Number.Binary64
import BenchCover.Number.Decimal

/-!
# Double-precision numbers as text

Reading a number from a decimal literal, correctly rounded, and writing it with a fixed count of
decimal places, of its exact value.

A literal is an optional sign and either a word for a number that is not finite or decimal digits
with an optional point among them and an optional exponent after them.
-/

namespace BenchCover

/- Powers are those of the core library, whatever else is imported. -/
attribute [local instance (high)] instPowNat

inductive LiteralFault where
  | empty
  | invalid
  deriving DecidableEq, Repr

def LiteralFault.message : LiteralFault → String
  | empty => "cannot parse float from empty string"
  | invalid => "invalid float literal"

namespace Binary64

/-! ## Reading -/

/-- **The number nearest to `± digits * 10 ^ exponent`.**  Exponents so large or so small that the
digits no longer matter are decided without their power of ten: a positive number times
`10 ^ 400` is too large for the format, and one below `2 ^ (n + 1)` over `10 ^ m` is less than half
a unit as soon as `n + 1077 ≤ 3 * m`. -/
def ofDecimal (negative : Bool) (digits : Nat) (exponent : Int) : Binary64 :=
  if digits = 0 then
    zero negative
  else match exponent with
    | .ofNat e => if 400 ≤ e then infinite negative else ofRatio negative (digits * 10 ^ e) 1
    | .negSucc e =>
      if digits.log2 + 1077 ≤ 3 * (e + 1) then zero negative
      else ofRatio negative digits (10 ^ (e + 1))

/-- The exponent that ends a literal: an optional sign and at least one digit. -/
def readExponent : List Char → Option Int
  | '-' :: digits => (readMagnitude digits).map fun n => -(n : Int)
  | '+' :: digits => (readMagnitude digits).map fun n => (n : Int)
  | digits => (readMagnitude digits).map fun n => (n : Int)
where
  readMagnitude (digits : List Char) : Option Nat :=
    if digits.isEmpty || !digits.all Char.isDigit then none else some (Decimal.ofDigits digits)

def readFinite (negative : Bool) (text : List Char) : Option Binary64 :=
  let (whole, fraction, rest) := Decimal.cutNumber text
  let ofExponent (exponent : Int) : Binary64 :=
    ofDecimal negative (Decimal.ofDigits (whole ++ fraction)) (exponent - fraction.length)
  if whole.isEmpty && fraction.isEmpty then
    none
  else match rest with
    | [] => some (ofExponent 0)
    | c :: rest => if c.toLower = 'e' then (readExponent rest).map ofExponent else none

def readMagnitude (negative : Bool) (text : List Char) : Option Binary64 :=
  let word := text.map Char.toLower
  if word = "nan".toList then some nan
  else if word = "inf".toList || word = "infinity".toList then some (infinite negative)
  else readFinite negative text

/-- **Reads a literal.** -/
def read (text : List Char) : Except LiteralFault Binary64 :=
  match text with
  | [] => .error .empty
  | '-' :: rest => orInvalid (readMagnitude true rest)
  | '+' :: rest => orInvalid (readMagnitude false rest)
  | rest => orInvalid (readMagnitude false rest)
where
  /-- A literal that is not of the grammar is invalid. -/
  orInvalid : Option Binary64 → Except LiteralFault Binary64
    | some x => .ok x
    | none => .error .invalid

/-! ## Writing -/

def signed (negative : Bool) (magnitude : List Char) : List Char :=
  if negative then '-' :: magnitude else magnitude

/-- The digits of `scaled`, with a point in front of the last `places` of them. -/
def placePoint (places scaled : Nat) : List Char :=
  Nat.toDigits 10 (scaled / 10 ^ places) ++
    '.' :: Decimal.padded places (scaled % 10 ^ places)

/-- **The number with a fixed count of decimal places.**  The exact value is rounded, halfway to
the even last digit; a zero keeps its sign. -/
def fixed (places : Nat) : Binary64 → List Char
  | nan => "NaN".toList
  | infinite negative => signed negative "inf".toList
  | finite negative units _ =>
    signed negative (placePoint places (roundEven (units * 10 ^ places) unitsPerOne))

end Binary64

end BenchCover
