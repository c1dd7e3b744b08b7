import BenchCover.Proofs.Number.Literal
import Mathlib.Tactic.Ring

/-!
# Rows of digits

A number is cut at its point into two rows of digits, and nothing else is left of it:
`Decimal.cutNumber_of_isDigit` and `Decimal.exists_decimals_of_cutNumber`.

Digits count for less than the place in front of them (`Decimal.ofDigits_lt`), so that a fraction
can be cut where its further digits would only be rounded away: `Decimal.ofDigits_take_div`.
-/

namespace BenchCover

/- Powers are those of the core library, whatever else is imported. -/
attribute [local instance (high)] instPowNat

namespace Decimal

variable {whole fraction digits text : List Char}

lemma cutNumber_of_isDigit (hdigits : ∀ c ∈ digits, c.isDigit = true) :
    cutNumber digits = (digits, [], []) := by
  have hdrop : digits.dropWhile Char.isDigit = [] := List.dropWhile_eq_nil_iff.2 hdigits
  have htake : digits.takeWhile Char.isDigit = digits := List.takeWhile_eq_self_iff.2 hdigits
  simp only [cutNumber, hdrop, htake]

/-- A number of which nothing is left is made of digits, with a point among them perhaps. -/
lemma exists_decimals_of_cutNumber (hcut : cutNumber text = (whole, fraction, [])) :
    ∃ decimals? : Option (List Char), text = whole ++ decimals?.elim [] ('.' :: ·) ∧
      fraction = decimals?.getD [] ∧ (∀ c ∈ whole, c.isDigit = true) ∧
      ∀ c ∈ fraction, c.isDigit = true := by
  have htext : text.takeWhile Char.isDigit ++ text.dropWhile Char.isDigit = text :=
    List.takeWhile_append_dropWhile
  unfold cutNumber at hcut
  split at hcut
  case h_1 rest hdrop =>
    simp only [Prod.mk.injEq] at hcut
    obtain ⟨rfl, rfl, hrest⟩ := hcut
    refine ⟨some (rest.takeWhile Char.isDigit), ?_, rfl, fun _ => List.mem_takeWhile_imp,
      fun _ => List.mem_takeWhile_imp⟩
    have hall : rest.takeWhile Char.isDigit = rest := by
      simpa [hrest] using (List.takeWhile_append_dropWhile (p := Char.isDigit) (l := rest))
    rw [Option.elim_some, hall, ← hdrop, htext]
  case h_2 rest hdrop =>
    simp only [Prod.mk.injEq] at hcut
    obtain ⟨rfl, rfl, hrest⟩ := hcut
    refine ⟨none, ?_, rfl, fun _ => List.mem_takeWhile_imp, by simp⟩
    rw [Option.elim_none, ← hrest, htext]

/-- A row of digits stands for less than the power of ten with as many zeros. -/
lemma ofDigits_lt (hdigits : ∀ c ∈ digits, c.isDigit = true) :
    ofDigits digits < 10 ^ digits.length := by
  induction digits with
  | nil => decide
  | cons c rest ih =>
    obtain ⟨hc, hrest⟩ := List.forall_mem_cons.1 hdigits
    have hlow : ofDigits [c] ≤ 9 := by
      have hrange : c.toNat ≤ 57 := (Char.isDigit_iff_toNat.1 hc).2
      have hvalue : ofDigits [c] = c.toNat - 48 := by simp [ofDigits, Nat.ofDigitChars]
      omega
    have hrest := ih hrest
    calc ofDigits (c :: rest) = 10 ^ rest.length * ofDigits [c] + ofDigits rest :=
          ofDigits_append [c] rest
      _ < 10 ^ rest.length * ofDigits [c] + 10 ^ rest.length := by omega
      _ = 10 ^ rest.length * (ofDigits [c] + 1) := by ring
      _ ≤ 10 ^ rest.length * 10 := Nat.mul_le_mul_left _ (by omega)
      _ = 10 ^ (c :: rest).length := (Nat.pow_succ ..).symm

/-- **Digits behind a power of ten do not matter** when the quotient is rounded down. -/
lemma ofDigits_take_div {places count : ℕ} (hplaces : places ≤ count)
    (hdigits : ∀ c ∈ digits, c.isDigit = true) :
    ofDigits (digits.take count) * 10 ^ places / 10 ^ (digits.take count).length
      = ofDigits digits * 10 ^ places / 10 ^ digits.length := by
  rcases le_or_gt digits.length count with hshort | hlong
  · rw [List.take_of_length_le hshort]
  · have hlength : (digits.take count).length = count := List.length_take_of_le hlong.le
    set front := digits.take count
    set back := digits.drop count with hback_eq
    have hsplit : digits = front ++ back := (List.take_append_drop count digits).symm
    have hback : ofDigits back < 10 ^ back.length :=
      ofDigits_lt fun c hc => hdigits c (List.mem_of_mem_drop hc)
    have hpower : 10 ^ count = 10 ^ places * 10 ^ (count - places) := by
      rw [← Nat.pow_add, Nat.add_sub_cancel' hplaces]
    have hten : ∀ n : ℕ, 0 < 10 ^ n := fun n => Nat.pow_pos (by decide)
    calc ofDigits front * 10 ^ places / 10 ^ front.length
        = ofDigits front / 10 ^ (count - places) := by
          rw [hlength, hpower, Nat.mul_comm, Nat.mul_div_mul_left _ _ (hten places)]
      _ = (10 ^ back.length * ofDigits front + ofDigits back) / 10 ^ back.length
            / 10 ^ (count - places) := by
          rw [Nat.mul_add_div (hten _), Nat.div_eq_of_lt hback, Nat.add_zero]
      _ = ofDigits digits / (10 ^ back.length * 10 ^ (count - places)) := by
          rw [Nat.div_div_eq_div_mul, ← ofDigits_append, ← hsplit]
      _ = 10 ^ places * ofDigits digits
            / (10 ^ places * (10 ^ back.length * 10 ^ (count - places))) :=
          (Nat.mul_div_mul_left _ _ (hten places)).symm
      _ = ofDigits digits * 10 ^ places / 10 ^ digits.length := by
          rw [Nat.mul_left_comm, ← hpower, Nat.mul_comm, ← Nat.pow_add]
          congr 2
          rw [hback_eq, List.length_drop]
          omega

end Decimal

end BenchCover
