import BenchCover.Profile.Duration
import Mathlib.Tactic.IntervalCases

/-!
# The characters of durations

A text that is read as a duration is a sign and a row of segments, each a number and a unit.  So it
has only a few kinds of characters: `Duration.mem_characters_of_parse`.
-/

namespace BenchCover.Duration

variable {text : String} {duration : Duration} {segment : Segment} {total next : ℕ}

/-- The characters that durations are written with. -/
def characters : List Char :=
  ['0', '1', '2', '3', '4', '5', '6', '7', '8', '9', '.', '+', '-', 'n', 's', 'u', '\u00b5',
    '\u03bc', 'm', 'h']

lemma mem_characters_of_isNumeric {c : Char} (hc : isNumeric c = true) : c ∈ characters := by
  rcases Bool.or_eq_true_iff.1 hc with hdigit | hpoint
  · obtain ⟨hlow, hhigh⟩ := Char.isDigit_iff_toNat.1 hdigit
    rw [← Char.ofNat_toNat c]
    change 48 ≤ c.toNat at hlow
    change c.toNat ≤ 57 at hhigh
    generalize c.toNat = n at *
    interval_cases n <;> decide
  · rw [of_decide_eq_true hpoint]
    decide

/-! ## Segments -/

/-- No character is lost by cutting a text into segments. -/
lemma flatMap_segments (text : List Char) :
    (segments text).flatMap (fun segment => segment.number ++ segment.unit) = text := by
  induction text with
  | nil => rfl
  | cons c rest ih =>
    rw [segments]
    generalize segments rest = all at ih
    cases all with
    | nil =>
      rw [consSegment, ← ih]
      split_ifs <;> rfl
    | cons first others =>
      rw [consSegment, ← ih]
      split_ifs with hnumeric hempty
      · rfl
      · simp [List.isEmpty_iff.1 hempty]
      · rfl

lemma isNumeric_of_mem_segments {text : List Char} :
    ∀ segment ∈ segments text, ∀ c ∈ segment.number, isNumeric c = true := by
  induction text with
  | nil => simp [segments]
  | cons c rest ih =>
    rw [segments]
    generalize segments rest = all at ih
    cases all with
    | nil =>
      rw [consSegment]
      split_ifs with hnumeric <;> simp [hnumeric]
    | cons first others =>
      obtain ⟨hfirst, hothers⟩ := List.forall_mem_cons.1 ih
      rw [consSegment]
      split_ifs with hnumeric hempty
      · exact List.forall_mem_cons.2 ⟨List.forall_mem_cons.2 ⟨hnumeric, hfirst⟩, hothers⟩
      · exact List.forall_mem_cons.2 ⟨hfirst, hothers⟩
      · exact List.forall_mem_cons.2 ⟨by simp, ih⟩

/-- A segment that is added has a unit. -/
lemma mem_characters_of_unit (hadd : addSegment text total segment = .ok next) :
    ∀ c ∈ segment.unit, c ∈ characters := by
  have hunits : ∀ unit ∈ units, ∀ c ∈ unit.1.toList, c ∈ characters := by
    simp [units, characters]
  rw [addSegment] at hadd
  simp only at hadd
  split_ifs at hadd
  cases hscale : unitScale? segment.unit with
  | none =>
    rw [hscale] at hadd
    cases hadd
  | some scale =>
    obtain ⟨front, back, hsplit, -⟩ := List.lookup_eq_some_iff.1 hscale
    have hmem : (String.ofList segment.unit, scale) ∈ units := by simp [hsplit]
    simpa using hunits _ hmem

lemma mem_characters_of_foldlM {all : List Segment}
    (hadd : all.foldlM (addSegment text) total = .ok next) :
    ∀ segment ∈ all, ∀ c ∈ segment.unit, c ∈ characters := by
  induction all generalizing total with
  | nil => simp
  | cons first others ih =>
    rw [List.foldlM_cons] at hadd
    cases hfirst : addSegment text total first with
    | error fault =>
      rw [hfirst] at hadd
      cases hadd
    | ok middle =>
      rw [hfirst] at hadd
      exact List.forall_mem_cons.2 ⟨mem_characters_of_unit hfirst, ih hadd⟩

/-! ## Durations -/

lemma mem_characters_of_segments {unsigned : List Char}
    (hadd : (segments unsigned).foldlM (addSegment text) total = .ok next) :
    ∀ c ∈ unsigned, c ∈ characters := by
  intro c hc
  rw [← flatMap_segments unsigned] at hc
  obtain ⟨segment, hsegment, hc⟩ := List.mem_flatMap.1 hc
  rcases List.mem_append.1 hc with hnumber | hunit
  · exact mem_characters_of_isNumeric (isNumeric_of_mem_segments segment hsegment c hnumber)
  · exact mem_characters_of_foldlM hadd segment hsegment c hunit

/-- A text is its sign and what follows it. -/
lemma mem_cutSign {l : List Char} {c : Char} (hc : c ∈ l) :
    c ∈ characters ∨ c ∈ (cutSign l).2 := by
  fun_cases cutSign l with
  | case1 rest | case2 rest =>
    refine (List.mem_cons.1 hc).imp_left ?_
    rintro rfl
    decide
  | case3 => exact Or.inr hc

/-- What follows the sign of a duration is there, and it has the characters of durations. -/
lemma mem_characters_of_unsigned (hparse : parse text = .ok duration) :
    (cutSign text.toList).2 ≠ [] ∧ ∀ c ∈ (cutSign text.toList).2, c ∈ characters := by
  rw [parse] at hparse
  generalize cutSign text.toList = parts at hparse
  obtain ⟨negative, unsigned⟩ := parts
  simp only at hparse
  split_ifs at hparse with hzero hempty
  · subst hzero
    refine ⟨List.cons_ne_nil _ _, fun c hc => ?_⟩
    obtain rfl := List.mem_singleton.1 hc
    decide
  · refine ⟨by simpa using hempty, ?_⟩
    cases hadd : (segments unsigned).foldlM (addSegment text) 0 with
    | error fault =>
      rw [hadd] at hparse
      cases hparse
    | ok total => exact mem_characters_of_segments hadd

/-- **The characters of a text that is a duration.** -/
theorem mem_characters_of_parse (hparse : parse text = .ok duration) :
    text.toList ≠ [] ∧ ∀ c ∈ text.toList, c ∈ characters := by
  obtain ⟨hne, hunsigned⟩ := mem_characters_of_unsigned hparse
  refine ⟨fun hempty => hne (by rw [hempty]; rfl), fun c hc => ?_⟩
  exact (mem_cutSign hc).elim id (hunsigned c)

end BenchCover.Duration
