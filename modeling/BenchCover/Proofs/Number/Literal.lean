import BenchCover.Number.Literal
import Mathlib.Data.List.TakeWhile
import Mathlib.Tactic.Lemma

/-!
# Reading numbers that were written

A numeral is read as the number that it was written for, as long as the number is in the range:
`Decimal.readUInt64_toDigits`.  A double-precision number that was written with a fixed count of
decimal places is read as a number again: a finite one as the number nearest to the written one
(`Binary64.read_fixed_finite`), and those that are not finite as themselves.
-/

namespace BenchCover

/- Powers are those of the core library, whatever else is imported. -/
attribute [local instance (high)] instPowNat

lemma isDigit_of_mem_toDigits {n : ℕ} {c : Char} (hc : c ∈ Nat.toDigits 10 n) : c.isDigit = true :=
  Nat.isDigit_of_mem_toDigits (by decide) (by decide) hc

/-- Numbers are told apart by their numerals. -/
lemma toDigits_inj {m n : ℕ} (h : Nat.toDigits 10 m = Nat.toDigits 10 n) : m = n := by
  rw [← Nat.ofDigitChars_ten_toDigits (n := m), h, Nat.ofDigitChars_ten_toDigits]

namespace Decimal

variable {width n : ℕ} {c : Char} {whole fraction text : List Char}

/-! ## Whole numbers -/

lemma isDigit_of_mem_padded (hc : c ∈ padded width n) : c.isDigit = true := by
  rcases List.mem_append.1 hc with hzero | hdigit
  · rw [List.eq_of_mem_replicate hzero]
    rfl
  · exact isDigit_of_mem_toDigits hdigit

lemma length_padded (hwidth : 0 < width) (hn : n < 10 ^ width) :
    (padded width n).length = width := by
  have hlength : (Nat.toDigits 10 n).length ≤ width :=
    (Nat.length_toDigits_le_iff (by decide) hwidth).2 hn
  simp only [padded, List.length_append, List.length_replicate]
  omega

/-- A text of digits is read from its first character on. -/
lemma readNat_of_isDigit (largest : ℕ) (hne : text ≠ []) (hdigits : ∀ c ∈ text, c.isDigit = true) :
    readNat largest text = readDigits largest .tooLarge 0 text := by
  have hplus : ∀ rest, text ≠ '+' :: rest := by
    rintro rest rfl
    exact absurd (hdigits '+' List.mem_cons_self) (by decide)
  exact readNat.eq_4 largest text hne (fun h => hplus [] h) hplus

/-- **A numeral is read as the number that it was written for.** -/
theorem readUInt64_toDigits (n : UInt64) : readUInt64 (Nat.toDigits 10 n.toNat) = .ok n := by
  have hdigits : ∀ c ∈ Nat.toDigits 10 n.toNat, c.isDigit = true := fun _ => isDigit_of_mem_toDigits
  have hvalue : Nat.ofDigitChars 10 (Nat.toDigits 10 n.toNat) 0 = n.toNat :=
    Nat.ofDigitChars_ten_toDigits
  have hrange : n.toNat ≤ UInt64.size - 1 := Nat.le_sub_one_of_lt n.toNat_lt_size
  rw [readUInt64, readNat_of_isDigit _ Nat.toDigits_ne_nil hdigits,
    readDigits_eq_ok _ hdigits (hvalue.symm ▸ hrange), hvalue]
  exact congrArg Except.ok (UInt64.ofNat_toNat)

/-! ## Numbers with a point -/

/-- **A number with a point is cut at the point.** -/
lemma cutNumber_point (hwhole : ∀ c ∈ whole, c.isDigit = true)
    (hfraction : ∀ c ∈ fraction, c.isDigit = true) :
    cutNumber (whole ++ '.' :: fraction) = (whole, fraction, []) := by
  have hpoint : ¬ Char.isDigit '.' = true := by decide
  have hdrop : (whole ++ '.' :: fraction).dropWhile Char.isDigit = '.' :: fraction := by
    rw [List.dropWhile_append_of_pos hwhole, List.dropWhile_cons_of_neg hpoint]
  have htake : (whole ++ '.' :: fraction).takeWhile Char.isDigit = whole := by
    rw [List.takeWhile_append_of_pos hwhole, List.takeWhile_cons_of_neg hpoint, List.append_nil]
  simp only [cutNumber, hdrop, htake, List.takeWhile_eq_self_iff.2 hfraction,
    List.dropWhile_eq_nil_iff.2 hfraction]

end Decimal

namespace Binary64

variable {places : ℕ} {c : Char} {rest : List Char}

lemma toLower_of_isDigit (hc : c.isDigit = true) : c.toLower = c := by
  have hrange := Char.isDigit_iff_toNat.1 hc
  refine dif_neg ?_
  rintro ⟨hupper, -⟩
  have hletter : 65 ≤ c.toNat := hupper
  have hdigit : c.toNat ≤ 57 := hrange.2
  omega

/-- **A literal that starts with a digit is finite.** -/
lemma readMagnitude_of_isDigit (negative : Bool) (hc : c.isDigit = true) :
    readMagnitude negative (c :: rest) = readFinite negative (c :: rest) := by
  have hword : ∀ d word, d.isDigit = false → (c :: rest).map Char.toLower ≠ d :: word := by
    intro d word hd hsame
    obtain rfl : c = d := by
      rw [← toLower_of_isDigit hc]
      exact (List.cons.inj hsame).1
    exact absurd hc (by rw [hd]; decide)
  have hnan : (c :: rest).map Char.toLower ≠ "nan".toList := hword 'n' _ rfl
  have hinf : (c :: rest).map Char.toLower ≠ "inf".toList := hword 'i' _ rfl
  have hinfinity : (c :: rest).map Char.toLower ≠ "infinity".toList := hword 'i' _ rfl
  simp only [readMagnitude, hnan, hinf, hinfinity, if_false, Bool.false_eq_true, decide_false,
    Bool.or_self]

lemma placePoint_eq (places scaled : ℕ) : ∃ whole fraction : List Char,
    placePoint places scaled = whole ++ '.' :: fraction ∧ whole ≠ [] ∧
      (∀ c ∈ whole, c.isDigit = true) ∧ (∀ c ∈ fraction, c.isDigit = true) ∧
      (0 < places → fraction.length = places) ∧
      (0 < places → Decimal.ofDigits (whole ++ fraction) = scaled) := by
  have hpositive : 0 < 10 ^ places := Nat.pow_pos (by decide)
  have hlength : 0 < places → (Decimal.padded places (scaled % 10 ^ places)).length = places :=
    fun hplaces => Decimal.length_padded hplaces (Nat.mod_lt _ hpositive)
  refine ⟨_, _, rfl, Nat.toDigits_ne_nil, fun _ => isDigit_of_mem_toDigits,
    fun _ => Decimal.isDigit_of_mem_padded, hlength, fun hplaces => ?_⟩
  rw [Decimal.ofDigits_append, hlength hplaces, Decimal.ofDigits_toDigits, Decimal.ofDigits_padded]
  exact Nat.div_add_mod scaled (10 ^ places)

/-- **Reading a written number**: the digits count in units of the last place. -/
lemma readMagnitude_placePoint (negative : Bool) (scaled : ℕ) (hplaces : 0 < places) :
    readMagnitude negative (placePoint places scaled)
      = some (ofDecimal negative scaled (0 - (places : Int))) := by
  obtain ⟨whole, fraction, htext, hne, hwhole, hfraction, hlength, hvalue⟩ :=
    placePoint_eq places scaled
  obtain ⟨first, others, rfl⟩ := List.exists_cons_of_ne_nil hne
  rw [htext, List.cons_append, readMagnitude_of_isDigit _ (hwhole first List.mem_cons_self),
    ← List.cons_append, readFinite, Decimal.cutNumber_point hwhole hfraction]
  simp only [List.isEmpty_cons, Bool.false_and, Bool.false_eq_true, if_false, hvalue hplaces,
    hlength hplaces]

lemma read_signed {negative : Bool} (hc : c.isDigit = true) :
    read (signed negative (c :: rest)) = read.orInvalid (readMagnitude negative (c :: rest)) := by
  cases negative with
  | true => rfl
  | false =>
    have hsign : c ≠ '-' ∧ c ≠ '+' := by
      constructor <;> rintro rfl <;> exact absurd hc (by decide)
    rw [signed, if_neg (by decide)]
    exact read.eq_4 _ (by simp) (by simpa using fun h => absurd h hsign.1)
      (by simpa using fun h => absurd h hsign.2)

/-- **A finite number that was written is read as the number nearest to what was written.** -/
theorem read_fixed_finite {negative : Bool} {units : ℕ} {representable : Representable units}
    (hplaces : 0 < places) :
    read (fixed places (finite negative units representable))
      = .ok (ofDecimal negative (roundEven (units * 10 ^ places) unitsPerOne)
          (0 - (places : Int))) := by
  obtain ⟨whole, fraction, htext, hne, hwhole, -⟩ :=
    placePoint_eq places (roundEven (units * 10 ^ places) unitsPerOne)
  obtain ⟨first, others, rfl⟩ := List.exists_cons_of_ne_nil hne
  have hread := readMagnitude_placePoint negative
    (roundEven (units * 10 ^ places) unitsPerOne) hplaces
  rw [fixed, htext, List.cons_append, read_signed (hwhole first List.mem_cons_self),
    ← List.cons_append, ← htext, hread]
  rfl

/-- What is written is a literal. -/
lemma exists_read_fixed (x : Binary64) (hplaces : 0 < places) :
    ∃ y, read (x.fixed places) = .ok y := by
  cases x with
  | nan => exact ⟨.nan, rfl⟩
  | infinite negative => cases negative <;> exact ⟨_, rfl⟩
  | finite negative units representable => exact ⟨_, read_fixed_finite hplaces⟩

end Binary64

end BenchCover
