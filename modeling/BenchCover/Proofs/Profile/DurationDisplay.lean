import BenchCover.Function.Basic
import BenchCover.Proofs.Profile.DurationGrammar
import Mathlib.Data.List.Induction
import Mathlib.Tactic.FieldSimp

/-!
# Durations that were written

A duration is written as one quantity, in the largest unit that goes into it, and with all of its
digits: `Duration.Shows` says this without the writer, and `Duration.exists_shows` that the writer
keeps to it.  Zeros at the end of a fraction and in front of a number do not change what it stands
for (`fractionOf_dropTrailingZeros`, `fractionOf_padded`), so that the quantity stands for the
duration exactly, and it is read as that duration: `Duration.display_spec`.
-/

namespace BenchCover.Duration

/- Powers are those of the core library, whatever else is imported. -/
attribute [local instance (high)] instPowNat

variable {places rest n : ℕ} {digits : List Char} {unit : String} {q : Quantity}

/-! ## What is shown -/

/-- The units that durations are written in. -/
def shownUnits : List (String × ℕ) :=
  [("s", second), ("ms", millisecond), ("\u00b5s", microsecond), ("ns", 1)]

/-- **A quantity that shows a number of nanoseconds**: exactly, in the largest unit that goes into
it, or else in nanoseconds, without a zero that could be left out. -/
structure Shows (q : Quantity) (n : ℕ) : Prop where
  exact_eq : q.exact = n
  unit_mem : (q.unit, q.scale) ∈ shownUnits
  fits : q.scale ≤ n ∨ q.scale = 1
  largest : ∀ entry ∈ shownUnits, entry.2 ≤ n → entry.2 ≤ q.scale
  whole_eq : q.whole = Nat.toDigits 10 (n / q.scale)
  decimals_end : ∀ digits, q.decimals? = some digits → digits ≠ [] ∧ digits.getLast? ≠ some '0'

lemma mem_units_of_mem_shownUnits : ∀ entry ∈ shownUnits, entry ∈ units ∧ entry.2 ≤ second := by
  decide

/-- **What shows a duration is read as the duration.** -/
theorem Shows.parse_eq (h : Shows q n) {text : String} (htext : text.toList = q.text)
    (hrange : n < UInt64.size) : parse text = .ok ⟨n⟩ := by
  have hvalue : q.value = n := by
    rw [q.value_eq_floor (Or.inr (mem_units_of_mem_shownUnits _ h.unit_mem).2), h.exact_eq,
      Nat.floor_natCast]
  have hsum : IsSum text.toList n := by
    have := IsSum.quantities (List.cons_ne_nil q [])
    rwa [List.flatMap_singleton, List.map_singleton, List.sum_singleton, hvalue, ← htext] at this
  exact parse_eq_ok_iff.2 ⟨.bare hsum, hrange⟩

/-! ## Zeros that are left out -/

lemma dropTrailingZeros_concat (digits : List Char) (c : Char) :
    dropTrailingZeros (digits ++ [c])
      = if c = '0' then dropTrailingZeros digits else digits ++ [c] := by
  rw [dropTrailingZeros, List.reverse_concat]
  split_ifs with hzero
  · rw [List.dropWhile_cons_of_pos (by simpa using hzero), dropTrailingZeros]
  · rw [List.dropWhile_cons_of_neg (by simpa using hzero), List.reverse_cons, List.reverse_reverse]

/-- Zeros at the end of a fraction do not count. -/
lemma fractionOf_dropTrailingZeros (digits : List Char) :
    fractionOf (dropTrailingZeros digits) = fractionOf digits := by
  induction digits using List.reverseRecOn with
  | nil => rfl
  | append_singleton digits c ih =>
    rw [dropTrailingZeros_concat]
    split_ifs with hzero
    · have hvalue : Decimal.ofDigits (digits ++ [c]) = 10 * Decimal.ofDigits digits := by
        rw [Decimal.ofDigits_append, hzero]
        rfl
      rw [ih, fractionOf, fractionOf, hvalue, List.length_append, List.length_singleton]
      push_cast
      field_simp
      ring
    · rfl

lemma getLast?_dropTrailingZeros (digits : List Char) :
    (dropTrailingZeros digits).getLast? ≠ some '0' := by
  induction digits using List.reverseRecOn with
  | nil => simp [dropTrailingZeros]
  | append_singleton digits c ih =>
    rw [dropTrailingZeros_concat]
    split_ifs with hzero
    · exact ih
    · simpa using hzero

lemma isDigit_of_mem_dropTrailingZeros (hdigits : ∀ c ∈ digits, c.isDigit = true) :
    ∀ c ∈ dropTrailingZeros digits, c.isDigit = true := by
  intro c hc
  rw [dropTrailingZeros, List.mem_reverse] at hc
  exact hdigits c (List.mem_reverse.1 (List.dropWhile_sublist _ |>.subset hc))

/-- Zeros in front of the rest of a division are places of its fraction. -/
lemma fractionOf_padded (hrest : rest < 10 ^ places) :
    fractionOf (Decimal.padded places rest) = rest / 10 ^ places := by
  rcases Nat.eq_zero_or_pos places with rfl | hplaces
  · obtain rfl : rest = 0 := Nat.lt_one_iff.1 hrest
    simp [fractionOf]
  · rw [fractionOf, Decimal.ofDigits_padded, Decimal.length_padded hplaces hrest]

/-! ## Writing in a unit -/

/-- **What is written in a unit** is a quantity that stands for all of the nanoseconds. -/
lemma exists_quantity_inUnit (hunit : (unit, 10 ^ places) ∈ units) (n : ℕ) :
    ∃ q : Quantity, inUnit places unit n = q.text ∧ q.exact = n ∧ q.unit = unit ∧
      q.scale = 10 ^ places ∧ q.whole = Nat.toDigits 10 (n / 10 ^ places) ∧
      ∀ digits, q.decimals? = some digits → digits ≠ [] ∧ digits.getLast? ≠ some '0' := by
  have hten : 0 < 10 ^ places := Nat.pow_pos (by decide)
  set fraction := dropTrailingZeros (Decimal.padded places (n % 10 ^ places)) with hfraction_eq
  have hfraction : fractionOf fraction = (n % 10 ^ places : ℕ) / 10 ^ places := by
    rw [fractionOf_dropTrailingZeros, fractionOf_padded (Nat.mod_lt n hten)]
  have hdigits : ∀ c ∈ fraction, c.isDigit = true :=
    isDigit_of_mem_dropTrailingZeros fun _ => Decimal.isDigit_of_mem_padded
  have hdecimals : (if fraction = [] then none else some fraction).getD [] = fraction := by
    split_ifs with hempty
    · exact hempty.symm
    · rfl
  let q : Quantity :=
    { whole := Nat.toDigits 10 (n / 10 ^ places)
      decimals? := if fraction = [] then none else some fraction
      unit, scale := 10 ^ places
      isDigit_whole := fun _ => isDigit_of_mem_toDigits
      isDigit_decimals := by rwa [hdecimals]
      digits_ne_nil := List.append_ne_nil_of_left_ne_nil Nat.toDigits_ne_nil _
      unit_mem := hunit }
  refine ⟨q, ?_, ?_, rfl, rfl, rfl, ?_⟩
  · simp only [inUnit, ← hfraction_eq, Quantity.text, Quantity.number, q]
    split_ifs with hempty hnil hnil <;> simp_all
  · have hsplit : ((10 ^ places * (n / 10 ^ places) + n % 10 ^ places : ℕ) : ℚ) = n := by
      rw [Nat.div_add_mod]
    have hwhole : Decimal.ofDigits q.whole = n / 10 ^ places := Decimal.ofDigits_toDigits _
    have hscale : (q.scale : ℚ) = 10 ^ places := Nat.cast_pow 10 places
    rw [Quantity.exact, Quantity.decimals, hdecimals, hfraction, hwhole, hscale, ← hsplit]
    push_cast
    field_simp
  · intro digits hsome
    simp only [q] at hsome
    split_ifs at hsome with hempty
    obtain rfl := Option.some.inj hsome
    exact ⟨hempty, getLast?_dropTrailingZeros _⟩

lemma exists_shows_inUnit (hunit : (unit, 10 ^ places) ∈ shownUnits)
    (hfits : 10 ^ places ≤ n ∨ 10 ^ places = 1)
    (hlargest : ∀ entry ∈ shownUnits, entry.2 ≤ n → entry.2 ≤ 10 ^ places) :
    ∃ q : Quantity, Shows q n ∧ inUnit places unit n = q.text := by
  obtain ⟨q, htext, hexact, hq, hscale, hwhole, hend⟩ :=
    exists_quantity_inUnit (mem_units_of_mem_shownUnits _ hunit).1 n
  rw [← hq, ← hscale] at hunit
  rw [← hscale] at hfits hlargest hwhole
  exact ⟨q, ⟨hexact, hunit, hfits, hlargest, hwhole, hend⟩, htext⟩

/-- **What is written for a duration shows it.** -/
theorem exists_shows (d : Duration) : ∃ q : Quantity, Shows q d.nanoseconds ∧
    d.display.toList = q.text := by
  have hunits : second = 10 ^ 9 ∧ millisecond = 10 ^ 6 ∧ microsecond = 10 ^ 3 := by decide
  obtain ⟨hsecond, hmillisecond, hmicrosecond⟩ := hunits
  rw [display, String.toList_ofList]
  split_ifs with hs hms hmus
  · refine exists_shows_inUnit (by decide) (Or.inl (hsecond ▸ hs)) ?_
    simp [shownUnits, hsecond, hmillisecond, hmicrosecond]
  · refine exists_shows_inUnit (by decide) (Or.inl (hmillisecond ▸ hms)) ?_
    simp [shownUnits, hs, hmillisecond, hmicrosecond]
  · refine exists_shows_inUnit (by decide) (Or.inl (hmicrosecond ▸ hmus)) ?_
    simp [shownUnits, hs, hms, hmicrosecond]
  · refine exists_shows_inUnit (by decide) (Or.inr rfl) ?_
    simp [shownUnits, hs, hms, hmus]

/-- A duration of 64 bits is read from what is written for it. -/
lemma parse_display {d : Duration} (hrange : d.nanoseconds < UInt64.size) :
    parse d.display = .ok d := by
  obtain ⟨q, hshows, htext⟩ := d.exists_shows
  exact hshows.parse_eq htext hrange

/-- **Durations that are written are read back.**  What is written for a duration is a quantity
that shows it.  Durations of 64 bits are read from it, so that different ones are written
differently, and the text of a function has such texts of both of its times. -/
theorem display_spec :
    (∀ d : Duration, ∃ q : Quantity, Shows q d.nanoseconds ∧ d.display.toList = q.text) ∧
    (∀ d : Duration, d.nanoseconds < UInt64.size → parse d.display = .ok d) ∧
    (∀ d d' : Duration, d.nanoseconds < UInt64.size → d'.nanoseconds < UInt64.size → d ≠ d' →
      d.display ≠ d'.display) ∧
    ∀ f : Function, f.selfTime.nanoseconds < UInt64.size → f.totalTime.nanoseconds < UInt64.size →
      ∃ selfText totalText : String, parse selfText = .ok f.selfTime ∧
        parse totalText = .ok f.totalTime ∧
        f.display = s!"Function(id={f.id},name={f.name},self={selfText},total={totalText})" := by
  refine ⟨exists_shows, fun d => parse_display, fun d d' hd hd' hne hsame => ?_,
    fun f hself htotal => ?_⟩
  · have hparse := parse_display hd
    rw [hsame, parse_display hd'] at hparse
    exact hne (Except.ok.inj hparse).symm
  · exact ⟨_, _, parse_display hself, parse_display htotal, rfl⟩

/-- A function with the largest time of 64 bits, which a scale and nine places are needed for. -/
def longestRun : Function :=
  ⟨0, "p/f", ⟨1000001⟩, ⟨18446744073709551615⟩⟩

theorem display_spec_longestRun :
    longestRun.selfTime.nanoseconds < UInt64.size ∧
    longestRun.totalTime.nanoseconds < UInt64.size ∧ longestRun.selfTime ≠ longestRun.totalTime ∧
    parse longestRun.totalTime.display = .ok longestRun.totalTime ∧
    longestRun.selfTime.display ≠ longestRun.totalTime.display ∧
    ∃ selfText totalText : String, parse selfText = .ok longestRun.selfTime ∧
      parse totalText = .ok longestRun.totalTime ∧
      longestRun.display = s!"Function(id=0,name=p/f,self={selfText},total={totalText})" :=
  have hself : longestRun.selfTime.nanoseconds < UInt64.size := by decide
  have htotal : longestRun.totalTime.nanoseconds < UInt64.size := by decide
  have hne : longestRun.selfTime ≠ longestRun.totalTime := by decide
  ⟨hself, htotal, hne, display_spec.2.1 _ htotal, display_spec.2.2.1 _ _ hself htotal hne,
    display_spec.2.2.2 longestRun hself htotal⟩

end BenchCover.Duration
