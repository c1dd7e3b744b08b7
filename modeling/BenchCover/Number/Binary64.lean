import BenchCover.Number.Rounding

/-!
# Double-precision numbers

The numbers of the IEEE format `binary64`, with exact values: a finite one is counted in units of
the least positive one, `2 ^ -1074`.  Fractions of a rendering configuration, shares of an overlap
and the weights of calls are such numbers.

* `Binary64.ofRatio` — the number nearest to a quotient, ties to even, infinite when too large.
* `Binary64.sameValue` — equality of values: a NaN equals nothing, and the two zeros are equal.
* `Binary64.bits` — the word of 64 bits that stands for a number.

`representable_round` is the reason why rounding gives a number of the format.
-/

namespace BenchCover

/- Powers are those of the core library, whatever else is imported. -/
attribute [local instance (high)] instPowNat

/-- The binary digits that follow the leading one. -/
def fractionBits : Nat := 52

def significandBits : Nat := fractionBits + 1

/-- The binary places of a unit. -/
def unitPlaces : Nat := 1074

/-- The places of the binary numeral of the limit, behind its leading one. -/
def limitPlaces : Nat := 1024 + unitPlaces

def unitsPerOne : Nat := 2 ^ unitPlaces

/-- The least count of units that is too large for a double-precision number: those in the number
`2 ^ 1024`. -/
def unitLimit : Nat := 2 ^ limitPlaces

theorem unitLimit_pos : 0 < unitLimit := by
  rw [unitLimit]
  apply Nat.pow_pos
  decide

/-- A count of units that a double-precision number can hold: 53 binary digits and zeros after
them, below the limit. -/
def Representable (units : Nat) : Prop :=
  units < unitLimit ∧
    ∃ significand exponent : Nat,
      significand < 2 ^ significandBits ∧ units = significand * 2 ^ exponent

/-- **A double-precision number.**  A finite one is a sign and a count of units of
`2 ^ -1074`. -/
inductive Binary64 where
  | nan
  | infinite (negative : Bool)
  | finite (negative : Bool) (units : Nat) (representable : Representable units)

namespace Binary64

/-- The distance between the representable counts of units around `units`. -/
def spacing (units : Nat) : Nat :=
  2 ^ (units.log2 - fractionBits)

/-- The count of units nearest to `num / den` units among those with 53 binary digits. -/
def roundUnits (num den : Nat) : Nat :=
  let step := spacing (num / den)
  roundEven num (den * step) * step

theorem roundUnits_eq (num den : Nat) :
    ∃ significand exponent : Nat, significand < 2 ^ significandBits ∧
      roundUnits num den = significand * 2 ^ exponent := by
  have small : num / (den * spacing (num / den)) < 2 ^ significandBits := by
    rw [← Nat.div_div_eq_div_mul, spacing, Nat.div_lt_iff_lt_mul (Nat.two_pow_pos _),
      ← Nat.pow_add]
    refine Nat.lt_of_lt_of_le Nat.lt_log2_self (Nat.pow_le_pow_right (by omega) ?_)
    rw [significandBits]
    omega
  have le := roundEven_le num (den * spacing (num / den))
  simp only [roundUnits]
  generalize roundEven num (den * spacing (num / den)) = significand at le
  by_cases full : significand = 2 ^ significandBits
  · refine ⟨2 ^ fractionBits, (num / den).log2 - fractionBits + 1,
      Nat.pow_lt_pow_right (by omega) (Nat.lt_succ_self _), ?_⟩
    rw [full, spacing, ← Nat.pow_add, ← Nat.pow_add, significandBits]
    congr 1
    omega
  · refine ⟨significand, (num / den).log2 - fractionBits, ?_, rfl⟩
    exact Nat.lt_of_le_of_ne (Nat.le_trans le small) full

/-- **Rounding gives a number of the format** unless the result is too large for it. -/
theorem representable_round {num den : Nat} (h : roundUnits num den < unitLimit) :
    Representable (roundUnits num den) :=
  ⟨h, roundUnits_eq num den⟩

theorem representable_zero : Representable 0 :=
  ⟨unitLimit_pos, 0, 0, Nat.two_pow_pos _, by simp⟩

def zero (negative : Bool) : Binary64 :=
  .finite negative 0 representable_zero

/-- **The number nearest to `± num / den`**; halfway between two of them it is the one whose last
binary digit is zero. -/
def ofRatio (negative : Bool) (num den : Nat) : Binary64 :=
  if h : roundUnits (num * unitsPerOne) den < unitLimit then
    .finite negative (roundUnits (num * unitsPerOne) den) (representable_round h)
  else
    .infinite negative

def ofNat (n : Nat) : Binary64 :=
  ofRatio false n 1

/-- **Equality of values.**  A NaN equals nothing, itself included, and the zeros of either sign
are equal. -/
def sameValue : Binary64 → Binary64 → Bool
  | infinite a, infinite b => a == b
  | finite a m _, finite b n _ => m == n && (a == b || m == 0)
  | _, _ => false

/-- The word that stands for a magnitude: eleven bits of exponent and 52 bits of fraction. -/
def magnitudeBits (units : Nat) : Nat :=
  if units < 2 ^ fractionBits then units
  else (units.log2 - fractionBits) * 2 ^ fractionBits + units / spacing units

/-- **The word of 64 bits that stands for a number**; of the many words for a NaN it is the one
without a sign whose fraction is one half. -/
def bits : Binary64 → UInt64
  | nan => 0x7ff8000000000000
  | infinite negative => .ofNat (signBit negative + 0x7ff0000000000000)
  | finite negative units _ => .ofNat (signBit negative + magnitudeBits units)
where
  signBit (negative : Bool) : Nat := if negative then 0x8000000000000000 else 0

end Binary64

end BenchCover
