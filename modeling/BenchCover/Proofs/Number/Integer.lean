import BenchCover.Number.Decimal
import Mathlib.Data.Int.Notation
import Mathlib.Data.Nat.Notation
import Mathlib.Tactic.Lemma
import Mathlib.Tactic.SplitIfs

/-!
# Which texts are integers

A text stands for an integer if it has digits, behind one sign at most (`Decimal.StandsFor`).  Reading
stops where the value leaves the range, but zeros in front do not count for it, and the value only grows
with further digits (`Decimal.le_ofDigitChars`).  So the texts that are read as integers of 64 bits in
two's complement are those that stand for one: `Decimal.readInt64_eq_ok_iff`.
-/

namespace BenchCover.Decimal

variable {largest value n : ℕ} {overflow : IntegerFault} {text digits : List Char} {v : ℤ}

/-! ## Digits -/

/-- Further digits do not make a number smaller. -/
lemma le_ofDigitChars (value : ℕ) (digits : List Char) :
    value ≤ Nat.ofDigitChars 10 digits value := by
  rw [Nat.ofDigitChars_eq_ofDigitChars_zero]
  exact Nat.le_trans (Nat.le_mul_of_pos_left _ (Nat.pow_pos (by omega))) (Nat.le_add_right _ _)

/-- **Digits are read** if what they stand for is in the range. -/
lemma readDigits_eq_ok_iff (hvalue : value ≤ largest) :
    readDigits largest overflow value digits = .ok n ↔ (∀ c ∈ digits, c.isDigit = true) ∧
      Nat.ofDigitChars 10 digits value = n ∧ n ≤ largest := by
  induction digits generalizing value with
  | nil =>
    rw [readDigits]
    constructor
    · intro hok
      obtain rfl := Except.ok.inj hok
      exact ⟨by simp, rfl, hvalue⟩
    · rintro ⟨-, hn, -⟩
      exact congrArg Except.ok hn
  | cons c rest ih =>
    rw [readDigits, Nat.ofDigitChars_cons]
    dsimp only
    split_ifs with hdigit hrange
    · rw [ih hrange]
      simp [hdigit]
    · refine iff_of_false (by simp) ?_
      rintro ⟨-, hn, hle⟩
      exact hrange (Nat.le_trans (le_ofDigitChars _ rest) (hn ▸ hle))
    · refine iff_of_false (by simp) ?_
      rintro ⟨hall, -⟩
      exact hdigit (hall c List.mem_cons_self)

/-- A row of at least one digit. -/
structure IsNumeral (digits : List Char) : Prop where
  ne_nil : digits ≠ []
  isDigit : ∀ c ∈ digits, c.isDigit = true

lemma IsNumeral.head_ne {sign : Char} (h : IsNumeral (sign :: digits))
    (hsign : sign.isDigit = false) : False := by
  have := h.isDigit sign List.mem_cons_self
  simp [hsign] at this

lemma readDigits_zero_eq_ok_iff (hne : digits ≠ []) : readDigits largest overflow 0 digits = .ok n ↔
    IsNumeral digits ∧ ofDigits digits = n ∧ n ≤ largest := by
  rw [readDigits_eq_ok_iff (Nat.zero_le _)]
  exact and_congr_left fun _ => ⟨fun hall => ⟨hne, hall⟩, IsNumeral.isDigit⟩

/-! ## Signs -/

/-- **The texts that stand for an integer**: a row of digits, with one sign in front at most. -/
inductive StandsFor : List Char → ℤ → Prop
  | bare {numeral} : IsNumeral numeral → StandsFor numeral (ofDigits numeral)
  | plus {numeral} : IsNumeral numeral → StandsFor ('+' :: numeral) (ofDigits numeral)
  | minus {numeral} : IsNumeral numeral → StandsFor ('-' :: numeral) (-(ofDigits numeral : ℤ))

/-- **The texts of integers of 64 bits** in two's complement. -/
def IsInt64 (text : List Char) (value : ℤ) : Prop :=
  StandsFor text value ∧ -(signedLimit : ℤ) ≤ value ∧ value < signedLimit

lemma not_standsFor_nil : ¬ StandsFor [] v := by
  rintro ⟨hdigits⟩
  exact hdigits.ne_nil rfl

lemma standsFor_plus_iff :
    StandsFor ('+' :: digits) v ↔ IsNumeral digits ∧ (ofDigits digits : ℤ) = v := by
  constructor
  · intro h
    cases h with
    | bare hdigits => exact (hdigits.head_ne rfl).elim
    | plus hdigits => exact ⟨hdigits, rfl⟩
  · rintro ⟨hdigits, rfl⟩
    exact .plus hdigits

lemma standsFor_minus_iff :
    StandsFor ('-' :: digits) v ↔ IsNumeral digits ∧ -(ofDigits digits : ℤ) = v := by
  constructor
  · intro h
    cases h with
    | bare hdigits => exact (hdigits.head_ne rfl).elim
    | minus hdigits => exact ⟨hdigits, rfl⟩
  · rintro ⟨hdigits, rfl⟩
    exact .minus hdigits

lemma standsFor_iff_of_head {c : Char} (hplus : c ≠ '+') (hminus : c ≠ '-') :
    StandsFor (c :: digits) v ↔ IsNumeral (c :: digits) ∧ (ofDigits (c :: digits) : ℤ) = v := by
  constructor
  · intro h
    cases h with
    | bare hdigits => exact ⟨hdigits, rfl⟩
    | plus => exact absurd rfl hplus
    | minus => exact absurd rfl hminus
  · rintro ⟨hdigits, rfl⟩
    exact .bare hdigits

/-! ## Integers of 64 bits -/

/-- A magnitude that is read becomes an integer. -/
lemma map_cast_eq_ok_iff {x : Except IntegerFault ℕ} {f : ℤ → ℤ} :
    (do let a ← x; pure (a : ℤ) : Except IntegerFault ℤ).map f = .ok v ↔
      ∃ n : ℕ, x = .ok n ∧ f n = v := by
  cases x with
  | error fault => exact iff_of_false (by rintro ⟨⟩) (by simp)
  | ok n =>
    change (.ok (f n) : Except IntegerFault ℤ) = .ok v ↔ _
    simp

/-- What is read of a row of digits with a sign, or without one. -/
lemma map_readDigits_eq_ok_iff (hne : digits ≠ []) {f : ℤ → ℤ} :
    (do let a ← readDigits largest overflow 0 digits; pure (a : ℤ) :
        Except IntegerFault ℤ).map f = .ok v ↔
      IsNumeral digits ∧ f (ofDigits digits) = v ∧ ofDigits digits ≤ largest := by
  rw [map_cast_eq_ok_iff]
  constructor
  · rintro ⟨n, hread, rfl⟩
    obtain ⟨hdigits, rfl, hle⟩ := (readDigits_zero_eq_ok_iff hne).1 hread
    exact ⟨hdigits, rfl, hle⟩
  · rintro ⟨hdigits, rfl, hle⟩
    exact ⟨_, (readDigits_zero_eq_ok_iff hne).2 ⟨hdigits, rfl, hle⟩, rfl⟩

lemma not_isNumeral_nil : ¬ IsNumeral [] :=
  fun h => h.ne_nil rfl

/-- **A text is read as an integer** of 64 bits if it stands for one. -/
theorem readInt64_eq_ok_iff : readInt64 text = .ok v ↔ IsInt64 text v := by
  have hlimit : 0 < signedLimit := by decide
  unfold readInt64
  split
  · rw [IsInt64, standsFor_minus_iff]
    simp [not_isNumeral_nil]
  · rename_i digits hnil
    rw [map_readDigits_eq_ok_iff (fun h => hnil (h ▸ rfl)), IsInt64, standsFor_minus_iff, and_assoc]
    refine and_congr_right fun _ => and_congr_right fun hv => ?_
    omega
  · rename_i hlone hminus
    unfold readNat
    split
    · rw [map_cast_eq_ok_iff]
      simp [IsInt64, not_standsFor_nil]
    · rw [map_cast_eq_ok_iff, IsInt64, standsFor_plus_iff]
      simp [not_isNumeral_nil]
    · rename_i digits hnil
      rw [map_readDigits_eq_ok_iff (fun h => hnil (h ▸ rfl)), IsInt64, standsFor_plus_iff, and_assoc]
      refine and_congr_right fun _ => and_congr_right fun hv => ?_
      omega
    · rename_i hempty _ hplus
      obtain ⟨c, rest, rfl⟩ := List.exists_cons_of_ne_nil hempty
      have hsigns : c ≠ '+' ∧ c ≠ '-' :=
        ⟨fun h => hplus rest (h ▸ rfl), fun h => hminus rest (h ▸ rfl)⟩
      rw [map_readDigits_eq_ok_iff (List.cons_ne_nil c rest), IsInt64,
        standsFor_iff_of_head hsigns.1 hsigns.2, and_assoc]
      refine and_congr_right fun _ => and_congr_right fun hv => ?_
      omega

/-- **A text is refused** if it stands for no integer of 64 bits. -/
lemma exists_readInt64_eq_error_iff :
    (∃ cause, readInt64 text = .error cause) ↔ ¬ ∃ value, IsInt64 text value := by
  simp only [← readInt64_eq_ok_iff]
  cases readInt64 text <;> simp

end BenchCover.Decimal
