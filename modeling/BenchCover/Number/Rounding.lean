/-!
# Rounding quotients

The whole number nearest to a quotient of two numbers, where a quotient halfway between two whole
numbers goes to the even one.

`roundEven_le` bounds the result, and `two_mul_roundEven` says that it is at most one half away
from the quotient.
-/

namespace BenchCover

/-- **The whole number nearest to `num / den`**; halfway between two of them it is the even
one. -/
def roundEven (num den : Nat) : Nat :=
  let quotient := num / den
  let twice := 2 * (num % den)
  if twice < den ∨ (twice = den ∧ quotient % 2 = 0) then quotient else quotient + 1

/-! ## Laws -/

theorem div_le_roundEven (num den : Nat) : num / den ≤ roundEven num den := by
  simp only [roundEven]
  split <;> omega

theorem roundEven_le (num den : Nat) : roundEven num den ≤ num / den + 1 := by
  simp only [roundEven]
  split <;> omega

/-- A multiple of the divisor is not rounded. -/
theorem roundEven_mul {den : Nat} (h : 0 < den) (n : Nat) : roundEven (n * den) den = n := by
  simp [roundEven, Nat.mul_div_cancel n h, h]

/-- **The result is at most one half away from the quotient.** -/
theorem two_mul_roundEven {num den : Nat} (h : 0 < den) :
    2 * num ≤ 2 * (roundEven num den * den) + den ∧
      2 * (roundEven num den * den) ≤ 2 * num + den := by
  have split_num : num / den * den + num % den = num := by
    rw [Nat.mul_comm]
    exact Nat.div_add_mod num den
  have small := Nat.mod_lt num h
  simp only [roundEven]
  split
  · constructor <;> omega
  · rw [Nat.add_mul, Nat.one_mul]
    constructor <;> omega

end BenchCover
