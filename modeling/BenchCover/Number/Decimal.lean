/-!
# Decimal numerals

Whole numbers in decimal digits.  Reading is into a range, and a text is refused for the first
fault met from left to right: a character that is no digit, or a digit that takes the value out
of the range.  At one and the same character the first of these two wins.

`readDigits_eq_ok` says that digits that stand for a number of the range are read as that number;
`ofDigits_padded` says that zeros in front of a numeral do not change what it stands for.
-/

namespace BenchCover

/- Powers are those of the core library, whatever else is imported. -/
attribute [local instance (high)] instPowNat

inductive IntegerFault where
  | empty
  | invalidDigit
  | tooLarge
  | tooSmall
  deriving DecidableEq, Repr

def IntegerFault.message : IntegerFault → String
  | empty => "cannot parse integer from empty string"
  | invalidDigit => "invalid digit found in string"
  | tooLarge => "number too large to fit in target type"
  | tooSmall => "number too small to fit in target type"

namespace Decimal

/-! ## Writing -/

/-- The digits of a number, at least `width` of them, with zeros in front where it has fewer. -/
def padded (width n : Nat) : List Char :=
  let digits := Nat.toDigits 10 n
  List.replicate (width - digits.length) '0' ++ digits

/-! ## Reading -/

/-- The number that a row of digits stands for; no digits stand for zero. -/
def ofDigits (digits : List Char) : Nat :=
  Nat.ofDigitChars 10 digits 0

/-- Reads digits after those of `value`, up to the largest number allowed. -/
def readDigits (largest : Nat) (overflow : IntegerFault) (value : Nat) :
    List Char → Except IntegerFault Nat
  | [] => .ok value
  | c :: rest =>
    if c.isDigit then
      let next := 10 * value + (c.toNat - '0'.toNat)
      if next ≤ largest then readDigits largest overflow next rest else .error overflow
    else
      .error .invalidDigit

/-- Reads a number that is at least zero and at most `largest`; one `+` may stand in front. -/
def readNat (largest : Nat) : List Char → Except IntegerFault Nat
  | [] => .error .empty
  | ['+'] => .error .invalidDigit
  | '+' :: digits => readDigits largest .tooLarge 0 digits
  | digits => readDigits largest .tooLarge 0 digits

/-- Reads a number of 64 bits, all of them for the magnitude. -/
def readUInt64 (text : List Char) : Except IntegerFault UInt64 :=
  (readNat (UInt64.size - 1) text).map UInt64.ofNat

/-- The least magnitude that is too large for a positive number of 64 bits in two's complement. -/
def signedLimit : Nat := 0x8000000000000000

/-- Reads a number of 64 bits in two's complement; one `+` or `-` may stand in front. -/
def readInt64 : List Char → Except IntegerFault Int
  | ['-'] => .error .invalidDigit
  | '-' :: digits => (readDigits signedLimit .tooSmall 0 digits).map fun n => -(n : Int)
  | text => (readNat (signedLimit - 1) text).map fun n => (n : Int)

/-- The digits that a text starts with, the digits after a point that follows them, and what comes
after both. -/
def cutNumber (text : List Char) : List Char × List Char × List Char :=
  match text.dropWhile Char.isDigit with
  | '.' :: rest => (text.takeWhile Char.isDigit, rest.takeWhile Char.isDigit,
      rest.dropWhile Char.isDigit)
  | rest => (text.takeWhile Char.isDigit, [], rest)

/-! ## Laws -/

@[simp] theorem ofDigits_nil : ofDigits [] = 0 := rfl

@[simp] theorem ofDigits_toDigits (n : Nat) : ofDigits (Nat.toDigits 10 n) = n :=
  Nat.ofDigitChars_ten_toDigits

/-- Zeros in front of a numeral do not change what it stands for. -/
@[simp] theorem ofDigits_padded (width n : Nat) : ofDigits (padded width n) = n := by
  simp [ofDigits, padded, Nat.ofDigitChars_append, Nat.ofDigitChars_replicate_zero,
    Nat.ofDigitChars_ten_toDigits]

/-- The value of digits that are read in two parts. -/
theorem ofDigits_append (first second : List Char) :
    ofDigits (first ++ second) = 10 ^ second.length * ofDigits first + ofDigits second := by
  rw [ofDigits, Nat.ofDigitChars_append, Nat.ofDigitChars_eq_ofDigitChars_zero]
  rfl

/-- Digits that stand for a number of the range are read as that number. -/
theorem readDigits_eq_ok {largest value : Nat} (overflow : IntegerFault) {digits : List Char}
    (isDigit : ∀ c ∈ digits, c.isDigit = true)
    (le : Nat.ofDigitChars 10 digits value ≤ largest) :
    readDigits largest overflow value digits = .ok (Nat.ofDigitChars 10 digits value) := by
  induction digits generalizing value with
  | nil => rfl
  | cons c rest ih =>
    have grows : 10 * value + (c.toNat - '0'.toNat) ≤
        Nat.ofDigitChars 10 rest (10 * value + (c.toNat - '0'.toNat)) := by
      rw [Nat.ofDigitChars_eq_ofDigitChars_zero]
      exact Nat.le_trans (Nat.le_mul_of_pos_left _ (Nat.pow_pos (by omega))) (Nat.le_add_right _ _)
    rw [Nat.ofDigitChars_cons] at le ⊢
    rw [readDigits, if_pos (isDigit c (by simp)), if_pos (Nat.le_trans grows le)]
    exact ih (fun d hd => isDigit d (by simp [hd])) le

end Decimal

end BenchCover
