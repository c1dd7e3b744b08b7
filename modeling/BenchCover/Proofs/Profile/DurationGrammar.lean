import BenchCover.Proofs.Number.Digits
import BenchCover.Proofs.Profile.Duration
import Mathlib.Algebra.Order.Floor.Semifield
import Mathlib.Data.Rat.Floor
import Mathlib.Tactic.Positivity
import Mathlib.Tactic.Ring

/-!
# The grammar of durations

A duration is written as a sum of quantities, each a number and a unit, behind one sign at most.

**Quantities.**  A `Duration.Quantity` is a number of at least one digit with a unit of the table.
What it counts for, `Quantity.value`, leaves out the digits of its fraction behind the eighteenth.
That makes no difference for units up to seconds, since such a unit is a power of ten of
nanoseconds: `Quantity.value_eq_floor`.

**Segments.**  No unit has a digit or a point, so that a text of quantities is cut where they were
put together (`segments_quantities`), and a segment is added if and only if it is a quantity:
`addSegment_segment` and `exists_quantity_of_addSegment`.

A text is then read if and only if it is of the grammar and its value is in the range, and texts
without a sign are added by putting them together: `Duration.parse_spec`.
-/

namespace BenchCover

/- Powers are those of the core library, whatever else is imported. -/
attribute [local instance (high)] instPowNat

namespace Duration

/-! ## Quantities -/

/-- What the digits behind a point stand for. -/
def fractionOf (digits : List Char) : ℚ :=
  Decimal.ofDigits digits / 10 ^ digits.length

/-- **A quantity**: a number of at least one digit, and a unit of the table.  The number may have a
point, with digits on both sides of it or on one side only. -/
structure Quantity where
  whole : List Char
  /-- The digits behind the point, if there is a point. -/
  decimals? : Option (List Char)
  unit : String
  scale : ℕ
  isDigit_whole : ∀ c ∈ whole, c.isDigit = true
  isDigit_decimals : ∀ c ∈ decimals?.getD [], c.isDigit = true
  digits_ne_nil : whole ++ decimals?.getD [] ≠ []
  unit_mem : (unit, scale) ∈ units

namespace Quantity

def decimals (q : Quantity) : List Char :=
  q.decimals?.getD []

def number (q : Quantity) : List Char :=
  q.whole ++ q.decimals?.elim [] ('.' :: ·)

/-- The quantity as it is written. -/
def text (q : Quantity) : List Char :=
  q.number ++ q.unit.toList

/-- **The nanoseconds that a quantity counts for**: its whole part, and its fraction cut to
eighteen digits and rounded down. -/
def value (q : Quantity) : ℕ :=
  Decimal.ofDigits q.whole * q.scale + ⌊fractionOf (q.decimals.take 18) * q.scale⌋₊

/-- The nanoseconds that a quantity stands for, with all of its digits and parts of a nanosecond. -/
def exact (q : Quantity) : ℚ :=
  (Decimal.ofDigits q.whole + fractionOf q.decimals) * q.scale

end Quantity

/-! ## Texts of durations -/

/-- **The texts of durations without a sign**: a lone zero, or quantities in a row. -/
inductive IsSum : List Char → ℕ → Prop
  | zero : IsSum ['0'] 0
  | quantities {qs : List Quantity} (hne : qs ≠ []) :
      IsSum (qs.flatMap Quantity.text) (qs.map Quantity.value).sum

/-- **The texts that stand for a duration** of some nanoseconds: one sign may stand in front, and
behind a minus sign there is only zero. -/
inductive StandsFor : List Char → ℕ → Prop
  | bare {text n} : IsSum text n → StandsFor text n
  | plus {text n} : IsSum text n → StandsFor ('+' :: text) n
  | minus {text} : IsSum text 0 → StandsFor ('-' :: text) 0

def IsUnsigned (text : String) : Prop :=
  text.toList.head? ≠ some '+' ∧ text.toList.head? ≠ some '-'

instance (text : String) : Decidable (IsUnsigned text) :=
  inferInstanceAs (Decidable (_ ∧ _))

/-! ## What quantities count for -/

lemma floor_fractionOf (digits : List Char) (scale : ℕ) :
    ⌊fractionOf digits * scale⌋₊ = Decimal.ofDigits digits * scale / 10 ^ digits.length := by
  rw [← Nat.floor_div_eq_div (K := ℚ), fractionOf]
  congr 1
  push_cast
  ring

lemma fractionOf_nonneg (digits : List Char) : 0 ≤ fractionOf digits := by
  unfold fractionOf
  positivity

/-- A unit up to a second is a power of ten of nanoseconds. -/
lemma exists_scale_eq_pow (q : Quantity) (hscale : q.scale ≤ second) :
    ∃ places ≤ 9, q.scale = 10 ^ places := by
  have hmem := q.unit_mem
  simp only [units, List.mem_cons, Prod.mk.injEq, List.not_mem_nil, or_false] at hmem
  obtain ⟨-, h⟩ | ⟨-, h⟩ | ⟨-, h⟩ | ⟨-, h⟩ | ⟨-, h⟩ | ⟨-, h⟩ | ⟨-, h⟩ | ⟨-, h⟩ := hmem
  · exact ⟨0, by decide, h⟩
  · exact ⟨3, by decide, h⟩
  · exact ⟨3, by decide, h⟩
  · exact ⟨3, by decide, h⟩
  · exact ⟨6, by decide, h⟩
  · exact ⟨9, by decide, h⟩
  · exact absurd hscale (by rw [h]; decide)
  · exact absurd hscale (by rw [h]; decide)

/-- **A quantity counts for what it stands for, rounded down**, if its fraction has at most eighteen
digits or its unit is at most a second. -/
theorem Quantity.value_eq_floor (q : Quantity)
    (hexact : q.decimals.length ≤ 18 ∨ q.scale ≤ second) : q.value = ⌊q.exact⌋₊ := by
  have hcut :
      ⌊fractionOf (q.decimals.take 18) * q.scale⌋₊ = ⌊fractionOf q.decimals * q.scale⌋₊ := by
    rcases hexact with hshort | hscale
    · rw [List.take_of_length_le hshort]
    · obtain ⟨places, hplaces, hpower⟩ := exists_scale_eq_pow q hscale
      rw [floor_fractionOf, floor_fractionOf, hpower]
      exact Decimal.ofDigits_take_div (by omega) q.isDigit_decimals
  have hsum : q.exact
      = fractionOf q.decimals * q.scale + ((Decimal.ofDigits q.whole * q.scale : ℕ) : ℚ) := by
    rw [exact]
    push_cast
    ring
  have hnonneg : 0 ≤ fractionOf q.decimals * q.scale :=
    mul_nonneg (fractionOf_nonneg _) (Nat.cast_nonneg _)
  rw [value, hcut, hsum, Nat.floor_add_natCast hnonneg, Nat.add_comm]

/-! ## Segments -/

/-- No unit is empty or has a character of numbers, and none is met twice in the table. -/
lemma of_mem_units : ∀ entry ∈ units, entry.1.toList ≠ [] ∧
    (∀ c ∈ entry.1.toList, isNumeric c = false) ∧ units.lookup entry.1 = some entry.2 := by
  have hplain : ∀ entry ∈ units, entry.1.toList ≠ [] ∧
      ∀ c ∈ entry.1.toList, isNumeric c = false := by
    simp [units, isNumeric]
  have hlookup : ∀ entry ∈ units, units.lookup entry.1 = some entry.2 := by decide
  exact fun entry hentry =>
    ⟨(hplain entry hentry).1, (hplain entry hentry).2, hlookup entry hentry⟩

namespace Quantity

variable (q : Quantity)

lemma isNumeric_of_mem_number {c : Char} (hc : c ∈ q.number) : isNumeric c = true := by
  have hdigit : ∀ {d : Char}, d.isDigit = true → isNumeric d = true :=
    fun h => Bool.or_eq_true_iff.2 (Or.inl h)
  rcases List.mem_append.1 hc with hwhole | hdecimals
  · exact hdigit (q.isDigit_whole c hwhole)
  · have hisDigit := q.isDigit_decimals
    cases hpoint : q.decimals? with
    | none => simp [hpoint] at hdecimals
    | some digits =>
      rw [hpoint] at hdecimals hisDigit
      rcases List.mem_cons.1 hdecimals with rfl | hmem
      · rfl
      · exact hdigit (hisDigit c hmem)

lemma number_ne_nil : q.number ≠ [] := by
  have hne := q.digits_ne_nil
  rw [number]
  cases hpoint : q.decimals? with
  | none => simpa [hpoint] using hne
  | some digits => simp

lemma cutNumber_number : Decimal.cutNumber q.number = (q.whole, q.decimals, []) := by
  have hisDigit := q.isDigit_decimals
  rw [number, decimals]
  cases hpoint : q.decimals? with
  | none =>
    rw [Option.elim_none, List.append_nil]
    exact Decimal.cutNumber_of_isDigit q.isDigit_whole
  | some digits =>
    rw [hpoint] at hisDigit
    exact Decimal.cutNumber_point q.isDigit_whole hisDigit

/-- The segment of a quantity. -/
def segment : Segment :=
  ⟨q.number, q.unit.toList⟩

/-- **A quantity is added** as long as the sum of whole parts is in its range. -/
lemma addSegment_segment (text : String) {total : ℕ}
    (hwhole : total + Decimal.ofDigits q.whole * q.scale < sumLimit) :
    addSegment text total q.segment = .ok (total + q.value) := by
  obtain ⟨hunit, -, hlookup⟩ := of_mem_units _ q.unit_mem
  have hscale : unitScale? q.unit.toList = some q.scale := by
    rw [unitScale?, String.ofList_toList, hlookup]
  have hdigits : ¬ (q.whole.isEmpty && q.decimals.isEmpty) = true := by
    simpa [decimals] using q.digits_ne_nil
  have hrest : ¬ (!([] : List Char).isEmpty || q.unit.toList.isEmpty) = true := by
    simpa using hunit
  simp only [addSegment, segment, cutNumber_number, hscale]
  rw [if_neg hdigits, if_neg hrest, if_neg hwhole.not_ge, value, floor_fractionOf, Nat.add_assoc]
  rfl

end Quantity

/-- **A segment that is added is a quantity.** -/
lemma exists_quantity_of_addSegment {text : String} {total next : ℕ} {segment : Segment}
    (hadd : addSegment text total segment = .ok next) :
    ∃ q : Quantity, q.segment = segment ∧ next = total + q.value := by
  obtain ⟨whole, fraction, rest, hcut⟩ : ∃ whole fraction rest,
      Decimal.cutNumber segment.number = (whole, fraction, rest) := ⟨_, _, _, rfl⟩
  simp only [addSegment, hcut] at hadd
  split_ifs at hadd with hdigits hunit
  cases hscale : unitScale? segment.unit with
  | none => simp [hscale] at hadd
  | some scale =>
    simp only [hscale] at hadd
    split_ifs at hadd with hrange
    obtain ⟨hrest, -⟩ : rest = [] ∧ segment.unit ≠ [] := by simpa using hunit
    subst hrest
    obtain ⟨decimals?, hnumber, rfl, hwhole, hdecimals⟩ := Decimal.exists_decimals_of_cutNumber hcut
    obtain ⟨front, back, hsplit, -⟩ := List.lookup_eq_some_iff.1 hscale
    let q : Quantity :=
      { whole, decimals?, scale
        unit := String.ofList segment.unit
        isDigit_whole := hwhole
        isDigit_decimals := hdecimals
        digits_ne_nil := by simpa using hdigits
        unit_mem := by simp [hsplit] }
    refine ⟨q, ?_, ?_⟩
    · rw [Quantity.segment, Quantity.number, ← hnumber, String.toList_ofList]
    · rw [Quantity.value, floor_fractionOf, ← Nat.add_assoc]
      exact (Except.ok.inj hadd).symm

/-! ## Texts of quantities -/

section Segments

variable {digits mark rest : List Char}

lemma exists_segments_of_isNumeric {c : Char} (hc : isNumeric c = true) (rest : List Char) :
    ∃ first others, segments (c :: rest) = first :: others ∧ first.number ≠ [] := by
  rw [segments]
  cases segments rest with
  | nil => exact ⟨⟨[c], []⟩, [], by simp [consSegment, hc], List.cons_ne_nil _ _⟩
  | cons first others =>
    exact ⟨{ first with number := c :: first.number }, others, by simp [consSegment, hc],
      List.cons_ne_nil _ _⟩

/-- A unit ends where a number begins. -/
lemma segments_unit_append (hne : mark ≠ []) (hmark : ∀ c ∈ mark, isNumeric c = false)
    (hrest : ∀ c, rest.head? = some c → isNumeric c = true) :
    segments (mark ++ rest) = ⟨[], mark⟩ :: segments rest := by
  induction mark with
  | nil => exact absurd rfl hne
  | cons c others ih =>
    obtain ⟨hc, hothers⟩ := List.forall_mem_cons.1 hmark
    rw [List.cons_append, segments]
    cases others with
    | nil =>
      cases rest with
      | nil => simp [segments, consSegment, hc]
      | cons d more =>
        obtain ⟨first, later, hsegments, hnumber⟩ := exists_segments_of_isNumeric (hrest d rfl) more
        rw [List.nil_append, hsegments]
        simp [consSegment, hc, hnumber]
    | cons d more =>
      rw [ih (List.cons_ne_nil d more) hothers]
      simp [consSegment, hc]

/-- **A number and a unit behind it are a segment.** -/
lemma segments_append (hdigits : ∀ c ∈ digits, isNumeric c = true) (hne : mark ≠ [])
    (hmark : ∀ c ∈ mark, isNumeric c = false)
    (hrest : ∀ c, rest.head? = some c → isNumeric c = true) :
    segments (digits ++ (mark ++ rest)) = ⟨digits, mark⟩ :: segments rest := by
  induction digits with
  | nil => exact segments_unit_append hne hmark hrest
  | cons c others ih =>
    obtain ⟨hc, hothers⟩ := List.forall_mem_cons.1 hdigits
    rw [List.cons_append, segments, ih hothers]
    simp [consSegment, hc]

end Segments

section Quantities

variable {qs : List Quantity} {text : String} {total next n : ℕ}

/-- Quantities in a row begin with a character of a number. -/
lemma isNumeric_of_head? {c : Char} (hc : (qs.flatMap Quantity.text).head? = some c) :
    isNumeric c = true := by
  cases qs with
  | nil => cases hc
  | cons q others =>
    obtain ⟨first, later, hnumber⟩ := List.exists_cons_of_ne_nil q.number_ne_nil
    rw [List.flatMap_cons, Quantity.text, hnumber] at hc
    obtain rfl : first = c := Option.some.inj hc
    exact q.isNumeric_of_mem_number (hnumber ▸ List.mem_cons_self)

/-- **Quantities in a row are cut** where they were put together. -/
theorem segments_quantities (qs : List Quantity) :
    segments (qs.flatMap Quantity.text) = qs.map Quantity.segment := by
  induction qs with
  | nil => rfl
  | cons q others ih =>
    obtain ⟨hne, hunit, -⟩ := of_mem_units _ q.unit_mem
    have hnumber : ∀ c ∈ q.number, isNumeric c = true := fun _ => q.isNumeric_of_mem_number
    rw [List.flatMap_cons, Quantity.text, List.append_assoc,
      segments_append hnumber hne hunit fun _ => isNumeric_of_head?, ih]
    rfl

/-- A text that is cut into quantities is these quantities in a row. -/
lemma eq_flatMap_of_segments {l : List Char} (hsegments : qs.map Quantity.segment = segments l) :
    l = qs.flatMap Quantity.text := by
  rw [← flatMap_segments l, ← hsegments, List.flatMap_map]
  rfl

/-- **Quantities are added up** as long as their sum is in its range. -/
lemma foldlM_quantities (text : String) (hsum : total + (qs.map Quantity.value).sum < sumLimit) :
    (qs.map Quantity.segment).foldlM (addSegment text) total
      = .ok (total + (qs.map Quantity.value).sum) := by
  induction qs generalizing total with
  | nil => rfl
  | cons q others ih =>
    rw [List.map_cons, List.sum_cons, ← Nat.add_assoc] at hsum
    have hwhole : Decimal.ofDigits q.whole * q.scale ≤ q.value := Nat.le_add_right _ _
    rw [List.map_cons, List.foldlM_cons, q.addSegment_segment text (by omega), List.map_cons,
      List.sum_cons, ← Nat.add_assoc]
    exact ih hsum

/-- **Segments that are added up are quantities.** -/
lemma exists_quantities_of_foldlM {all : List Segment}
    (hadd : all.foldlM (addSegment text) total = .ok next) :
    ∃ qs : List Quantity, qs.map Quantity.segment = all ∧
      next = total + (qs.map Quantity.value).sum := by
  induction all generalizing total with
  | nil => exact ⟨[], rfl, (Except.ok.inj hadd).symm⟩
  | cons first others ih =>
    rw [List.foldlM_cons] at hadd
    cases hfirst : addSegment text total first with
    | error fault =>
      rw [hfirst] at hadd
      cases hadd
    | ok middle =>
      rw [hfirst] at hadd
      obtain ⟨q, hq, rfl⟩ := exists_quantity_of_addSegment hfirst
      obtain ⟨qs, hqs, rfl⟩ := ih hadd
      refine ⟨q :: qs, by rw [List.map_cons, hq, hqs], ?_⟩
      rw [List.map_cons, List.sum_cons, Nat.add_assoc]

/-! ## Durations -/

lemma flatMap_ne_zero (qs : List Quantity) : qs.flatMap Quantity.text ≠ ['0'] := by
  intro hzero
  have hsegments := segments_quantities qs
  rw [hzero] at hsegments
  obtain ⟨q, hq⟩ : ∃ q : Quantity, q.unit.toList = [] := by
    cases qs with
    | nil => cases hzero
    | cons q others =>
      exact ⟨q, (congrArg Segment.unit (List.cons.inj hsegments).1).symm⟩
  exact (of_mem_units _ q.unit_mem).1 hq

/-- **Reading quantities in a row**, behind a sign or without one. -/
lemma parse_of_quantities {negative : Bool} (hne : qs ≠ [])
    (hsign : cutSign text.toList = (negative, qs.flatMap Quantity.text))
    (hsum : (qs.map Quantity.value).sum < sumLimit) :
    parse text = if negative && (qs.map Quantity.value).sum != 0 then .error (.negative text)
      else if UInt64.size ≤ (qs.map Quantity.value).sum then .error (.overflow text)
      else .ok ⟨(qs.map Quantity.value).sum⟩ := by
  have hempty : ¬ (qs.flatMap Quantity.text).isEmpty = true := by
    obtain ⟨q, others, rfl⟩ := List.exists_cons_of_ne_nil hne
    simp [Quantity.text, q.number_ne_nil]
  have hadd := foldlM_quantities text (by rwa [Nat.zero_add] : 0 + _ < sumLimit)
  simp only [parse, hsign, segments_quantities, hadd]
  rw [if_neg (flatMap_ne_zero qs), if_neg hempty, Nat.zero_add]
  rfl

/-- A text of the grammar without a sign has none that could be cut off. -/
lemma IsSum.cutSign_eq {l : List Char} (h : IsSum l n) : cutSign l = (false, l) := by
  have hplain : ∀ c, l.head? = some c → isNumeric c = true := by
    cases h with
    | zero => simp [isNumeric]
    | quantities => exact fun _ => isNumeric_of_head?
  fun_cases cutSign l with
  | case1 rest | case2 rest => exact absurd (hplain _ rfl) (by decide)
  | case3 => rfl

/-- The grammar, said of the sign of a text and what follows it. -/
lemma standsFor_iff {l : List Char} :
    StandsFor l n ↔ IsSum (cutSign l).2 n ∧ ((cutSign l).1 = true → n = 0) := by
  constructor
  · intro h
    cases h with
    | bare h =>
      rw [h.cutSign_eq]
      exact ⟨h, by simp⟩
    | plus h => exact ⟨h, by simp [cutSign]⟩
    | minus h => exact ⟨h, fun _ => rfl⟩
  · fun_cases cutSign l with
    | case1 rest =>
      rintro ⟨h, hzero⟩
      obtain rfl := hzero rfl
      exact .minus h
    | case2 rest => exact fun h => .plus h.1
    | case3 => exact fun h => .bare h.1

/-- **A text is read if it is of the grammar.** -/
lemma parse_eq_ok_iff :
    parse text = .ok ⟨n⟩ ↔ StandsFor text.toList n ∧ n < UInt64.size := by
  have hlimit : UInt64.size < sumLimit := by decide
  rw [standsFor_iff]
  generalize hsign : cutSign text.toList = parts
  obtain ⟨negative, unsigned⟩ := parts
  constructor
  · intro hparse
    simp only [parse, hsign] at hparse
    split_ifs at hparse with hzero hempty
    · obtain rfl : 0 = n := congrArg Duration.nanoseconds (Except.ok.inj hparse)
      exact ⟨⟨hzero ▸ .zero, fun _ => rfl⟩, by decide⟩
    · cases hadd : (segments unsigned).foldlM (addSegment text) 0 with
      | error fault =>
        rw [hadd] at hparse
        cases hparse
      | ok total =>
        obtain ⟨qs, hsegments, htotal⟩ := exists_quantities_of_foldlM hadd
        rw [Nat.zero_add] at htotal
        subst htotal
        obtain rfl := eq_flatMap_of_segments hsegments
        have hne : qs ≠ [] := fun hnil => hempty (by rw [hnil]; rfl)
        rw [hadd] at hparse
        change (if _ then _ else if _ then _ else _) = _ at hparse
        split_ifs at hparse with hnegative hrange
        obtain rfl := congrArg Duration.nanoseconds (Except.ok.inj hparse)
        refine ⟨⟨.quantities hne, fun htrue => ?_⟩, Nat.lt_of_not_le hrange⟩
        simpa [show negative = true from htrue] using hnegative
  · rintro ⟨⟨hsum, hzero⟩, hrange⟩
    generalize hl : unsigned = l at hsum
    cases hsum with
    | zero =>
      simp only [parse, hsign, hl, if_true]
      rfl
    | @quantities qs hne =>
      subst hl
      rw [parse_of_quantities hne hsign (hrange.trans hlimit), if_neg, if_neg hrange.not_ge]
      simpa [imp_iff_not_or, or_comm] using hzero

/-- What is read without a sign, other than a lone zero, is quantities in a row. -/
lemma exists_quantities_of_parse (hparse : parse text = .ok ⟨n⟩) (hunsigned : IsUnsigned text)
    (hzero : text ≠ "0") :
    ∃ qs : List Quantity, qs ≠ [] ∧ text.toList = qs.flatMap Quantity.text ∧
      (qs.map Quantity.value).sum = n := by
  obtain ⟨hstands, -⟩ := parse_eq_ok_iff.1 hparse
  generalize hl : text.toList = l at hstands
  cases hstands with
  | plus => exact absurd (by rw [hl]; rfl) hunsigned.1
  | minus => exact absurd (by rw [hl]; rfl) hunsigned.2
  | bare hsum =>
    cases hsum with
    | zero => exact absurd (String.toList_inj.1 hl) hzero
    | quantities hne => exact ⟨_, hne, rfl, rfl⟩

/-- **Texts without a sign are added** by putting one behind the other. -/
lemma parse_append {a b : String} {m : ℕ} (ha : parse a = .ok ⟨m⟩) (hb : parse b = .ok ⟨n⟩)
    (hunsigned : IsUnsigned a ∧ IsUnsigned b) (hzero : a ≠ "0" ∧ b ≠ "0") :
    parse (a ++ b) = if m + n < UInt64.size then .ok ⟨m + n⟩ else .error (.overflow (a ++ b)) := by
  obtain ⟨ps, hps, hatext, rfl⟩ := exists_quantities_of_parse ha hunsigned.1 hzero.1
  obtain ⟨qs, -, hbtext, rfl⟩ := exists_quantities_of_parse hb hunsigned.2 hzero.2
  have hne : ps ++ qs ≠ [] := List.append_ne_nil_of_left_ne_nil hps qs
  have htext : (a ++ b).toList = (ps ++ qs).flatMap Quantity.text := by
    rw [String.toList_append, hatext, hbtext, List.flatMap_append]
  have hsum : ((ps ++ qs).map Quantity.value).sum
      = (ps.map Quantity.value).sum + (qs.map Quantity.value).sum := by
    rw [List.map_append, List.sum_append]
  have hsign : cutSign (a ++ b).toList = (false, (ps ++ qs).flatMap Quantity.text) := by
    rw [htext]
    exact (IsSum.quantities hne).cutSign_eq
  have hlimit : UInt64.size + UInt64.size < sumLimit := by decide
  have hrangea := (parse_eq_ok_iff.1 ha).2
  have hrangeb := (parse_eq_ok_iff.1 hb).2
  rw [parse_of_quantities hne hsign (by omega), hsum, Bool.false_and, if_neg Bool.false_ne_true]
  by_cases hfits : (ps.map Quantity.value).sum + (qs.map Quantity.value).sum < UInt64.size
  · rw [if_pos hfits, if_neg hfits.not_ge]
  · rw [if_neg hfits, if_pos (Nat.le_of_not_lt hfits)]

/-- **What texts of durations say.**  A text is read as a number of nanoseconds if and only if it is
of the grammar, stands for that number, and the number has 64 bits.  A quantity counts for what it
stands for, rounded down, if its fraction has at most eighteen digits or its unit is at most a
second.  Two texts without a sign, neither of them a lone zero, are read as the sum of their
durations when one is put behind the other, and refused as too large if and only if the sum has
more than 64 bits. -/
theorem parse_spec :
    (∀ (text : String) (n : ℕ),
      parse text = .ok ⟨n⟩ ↔ StandsFor text.toList n ∧ n < UInt64.size) ∧
    (∀ q : Quantity, q.decimals.length ≤ 18 ∨ q.scale ≤ second → q.value = ⌊q.exact⌋₊) ∧
    ∀ (a b : String) (m n : ℕ), parse a = .ok ⟨m⟩ → parse b = .ok ⟨n⟩ →
      IsUnsigned a → IsUnsigned b → a ≠ "0" → b ≠ "0" → parse (a ++ b)
        = if m + n < UInt64.size then .ok ⟨m + n⟩ else .error (.overflow (a ++ b)) := by
  refine ⟨fun text n => parse_eq_ok_iff, Quantity.value_eq_floor, ?_⟩
  intro a b m n ha hb hunsigneda hunsignedb hzeroa hzerob
  exact parse_append ha hb ⟨hunsigneda, hunsignedb⟩ ⟨hzeroa, hzerob⟩

/-- Half an hour with no digits in front of the point. -/
def halfHour : Quantity where
  whole := []
  decimals? := some ['5']
  unit := "h"
  scale := hour
  isDigit_whole := by simp
  isDigit_decimals := by simp
  digits_ne_nil := by decide
  unit_mem := by decide

theorem parse_spec_halfHour :
    parse "-0.0s" = .ok ⟨0⟩ ∧ StandsFor "-0.0s".toList 0 ∧
    halfHour.decimals.length ≤ 18 ∧ halfHour.value = ⌊halfHour.exact⌋₊ ∧
    parse "1m" = .ok ⟨60000000000⟩ ∧ parse ".5h" = .ok ⟨1800000000000⟩ ∧
    IsUnsigned "1m" ∧ IsUnsigned ".5h" ∧ "1m" ≠ "0" ∧ ".5h" ≠ "0" ∧
    parse ("1m" ++ ".5h") = .ok ⟨1860000000000⟩ := by
  have hzero : parse "-0.0s" = .ok ⟨0⟩ := by decide
  have hminute : parse "1m" = .ok ⟨60000000000⟩ := by decide
  have hhalf : parse ".5h" = .ok ⟨1800000000000⟩ := by decide
  refine ⟨hzero, ((parse_spec.1 _ _).1 hzero).1, by decide,
    parse_spec.2.1 halfHour (Or.inl (by decide)), hminute, hhalf, by decide, by decide, by decide,
    by decide, ?_⟩
  exact parse_spec.2.2 _ _ _ _ hminute hhalf (by decide) (by decide) (by decide) (by decide)

end Quantities

end Duration

end BenchCover
