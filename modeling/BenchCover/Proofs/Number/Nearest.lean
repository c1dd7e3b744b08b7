import BenchCover.Number.Binary64
import Mathlib.Data.Nat.Dist
import Mathlib.Tactic.Lemma

/-!
# Nearest numbers

`Binary64.ofRatio` rounds a quotient to a count of units with 53 binary digits.  No other number of the
format is nearer to the quotient (`Binary64.isNearest_ofRatio`).

Distances to a quotient `num / den` are compared without fractions, as those of `units * den` from
`num`.  A count of units that is a multiple of the spacing around the quotient is compared with the
multiple that rounding gives (`dist_roundEven_le`); any other count of 53 binary digits is below the
power of two that the spacing starts from, and this power is no farther from the quotient
(`dist_roundUnits_le`).
-/

namespace BenchCover

/- Powers are those of the core library, whatever else is imported. -/
attribute [local instance (high)] instPowNat

/-- No multiple of the divisor is nearer than the one that rounding gives. -/
lemma dist_roundEven_le {num den : ℕ} (hden : 0 < den) (n : ℕ) :
    Nat.dist (roundEven num den * den) num ≤ Nat.dist (n * den) num := by
  have ⟨hlower, hupper⟩ : 2 * num ≤ 2 * (roundEven num den * den) + den ∧
      2 * (roundEven num den * den) ≤ 2 * num + den := two_mul_roundEven hden
  have hnext : ∀ {a b : ℕ}, a < b → a * den + den ≤ b * den := by
    intro a b hlt
    rw [← Nat.succ_mul]
    exact Nat.mul_le_mul_right den hlt
  simp only [Nat.dist]
  rcases Nat.lt_trichotomy n (roundEven num den) with hlt | rfl | hgt
  · have := hnext hlt
    omega
  · omega
  · have := hnext hgt
    omega

namespace Binary64

variable {num den : ℕ}

/-- **No count of units with 53 binary digits is nearer** to a quotient than the one that rounding
gives. -/
theorem dist_roundUnits_le (hden : 0 < den) {significand exponent : ℕ}
    (hdigits : significand < 2 ^ significandBits) :
    Nat.dist (roundUnits num den * den) num
      ≤ Nat.dist (significand * 2 ^ exponent * den) num := by
  have hpositive : 0 < den * spacing (num / den) := Nat.mul_pos hden (Nat.two_pow_pos _)
  have hrounded : ∀ n, Nat.dist (roundUnits num den * den) num
      ≤ Nat.dist (n * spacing (num / den) * den) num := by
    intro n
    have hscaled : ∀ m, m * spacing (num / den) * den = m * (den * spacing (num / den)) := fun m => by
      rw [Nat.mul_assoc, Nat.mul_comm (spacing _)]
    rw [roundUnits, hscaled, hscaled]
    exact dist_roundEven_le hpositive n
  by_cases hspaced : (num / den).log2 - fractionBits ≤ exponent
  · -- the count is a multiple of the spacing
    have hsplit : 2 ^ exponent
        = 2 ^ (exponent - ((num / den).log2 - fractionBits)) * spacing (num / den) := by
      rw [spacing, ← Nat.pow_add, Nat.sub_add_cancel hspaced]
    rw [hsplit, ← Nat.mul_assoc]
    exact hrounded _
  · -- the count is below the largest power of two that is not above the quotient
    rw [Nat.not_le] at hspaced
    have hnonzero : num / den ≠ 0 := by
      intro hzero
      rw [hzero] at hspaced
      exact absurd hspaced (by simp)
    have htop : 2 ^ fractionBits * spacing (num / den) = 2 ^ (num / den).log2 := by
      rw [spacing, ← Nat.pow_add]
      congr 1
      omega
    have hbelow : significand * 2 ^ exponent ≤ 2 ^ (num / den).log2 := by
      calc significand * 2 ^ exponent
          ≤ 2 ^ significandBits * 2 ^ exponent := Nat.mul_le_mul_right _ hdigits.le
        _ = 2 ^ (significandBits + exponent) := (Nat.pow_add ..).symm
        _ ≤ 2 ^ (num / den).log2 := Nat.pow_le_pow_right Nat.two_pos (by
            rw [significandBits]
            omega)
    have hquotient : 2 ^ (num / den).log2 * den ≤ num :=
      (Nat.mul_le_mul_right den (Nat.log2_self_le hnonzero)).trans (Nat.div_mul_le_self num den)
    have hcount : significand * 2 ^ exponent * den ≤ 2 ^ (num / den).log2 * den :=
      Nat.mul_le_mul_right den hbelow
    have hnearest := hrounded (2 ^ fractionBits)
    rw [htop] at hnearest
    simp only [Nat.dist] at hnearest ⊢
    omega

/-- A quotient that is at most a number of the format is not rounded to more. -/
lemma roundUnits_le (hden : 0 < den) {significand exponent : ℕ}
    (hdigits : significand < 2 ^ significandBits) (hle : num ≤ significand * 2 ^ exponent * den) :
    roundUnits num den ≤ significand * 2 ^ exponent := by
  by_contra hmore
  have hnext : significand * 2 ^ exponent * den + den ≤ roundUnits num den * den := by
    rw [← Nat.succ_mul]
    exact Nat.mul_le_mul_right den (Nat.not_le.1 hmore)
  have hnearest : Nat.dist (roundUnits num den * den) num
      ≤ Nat.dist (significand * 2 ^ exponent * den) num := dist_roundUnits_le hden hdigits
  simp only [Nat.dist] at hnearest
  omega

/-- **A number of the format that is nearest to `num / den`**: finite, not negative, and no other
number is nearer. -/
def IsNearest (x : Binary64) (num den : ℕ) : Prop :=
  ∃ units representable, x = .finite false units representable ∧
    ∀ other, Representable other →
      Nat.dist (units * den) (num * unitsPerOne) ≤ Nat.dist (other * den) (num * unitsPerOne)

/-- A number of the format that is not negative and at most one. -/
def AtMostOne (x : Binary64) : Prop :=
  ∃ units representable, x = .finite false units representable ∧ units ≤ unitsPerOne

/-- **A part of a whole is rounded to the nearest number**, which is at most one. -/
theorem isNearest_ofRatio (hden : 0 < den) (hle : num ≤ den) :
    (ofRatio false num den).IsNearest num den ∧ (ofRatio false num den).AtMostOne := by
  have hone : roundUnits (num * unitsPerOne) den ≤ unitsPerOne := by
    have hpart : num * unitsPerOne ≤ 1 * 2 ^ unitPlaces * den := by
      rw [Nat.one_mul, Nat.mul_comm (2 ^ unitPlaces)]
      exact Nat.mul_le_mul_right _ hle
    have hrounded := roundUnits_le hden (Nat.one_lt_two_pow (by decide)) hpart
    rwa [Nat.one_mul] at hrounded
  have hlimit : roundUnits (num * unitsPerOne) den < unitLimit :=
    hone.trans_lt (Nat.pow_lt_pow_right Nat.one_lt_two (by decide))
  rw [ofRatio, dif_pos hlimit]
  refine ⟨⟨_, _, rfl, ?_⟩, _, _, rfl, hone⟩
  rintro _ ⟨-, significand, exponent, hdigits, rfl⟩
  exact dist_roundUnits_le hden hdigits

end Binary64

end BenchCover
