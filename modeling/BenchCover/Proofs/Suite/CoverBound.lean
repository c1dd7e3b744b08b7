import BenchCover.Proofs.Suite.Greedy
import Mathlib.NumberTheory.Harmonic.Defs
import Mathlib.Algebra.BigOperators.Field
import Mathlib.Algebra.Order.BigOperators.Group.Finset
import Mathlib.Algebra.Order.Field.Basic
import Mathlib.Tactic.FieldSimp
import Mathlib.Tactic.Linarith
import Mathlib.Tactic.Positivity
import Mathlib.Tactic.Ring

/-!
# How far a greedy cover is from the best one

A greedy run takes at every step as much as any rival still offers.  Its length is compared with
the number of rivals that cover all that it covers.

The measure is a potential: the sum, over the rivals, of the harmonic number of what is left of the
rival's set.  A pick that gains `m` elements takes at least `m` elements away from the rivals
together, since they cover them, and each element that a rival loses is worth at least `1 / m`,
since no rival had more than `m` left.  So every pick lowers the potential by one
(`one_add_potential_le`), and a run is no longer than the potential it starts with.
-/

namespace BenchCover

variable {α β κ : Type} [DecidableEq α] [DecidableEq β]

/-! ## Harmonic numbers -/

lemma harmonic_mono : Monotone harmonic := by
  refine monotone_nat_of_le_succ fun n => ?_
  rw [harmonic_succ]
  exact le_add_of_nonneg_right (by positivity)

/-- Between two numbers up to `m`, the harmonic numbers grow by at least `1 / m` a step. -/
lemma harmonic_add_div_le {r' r m : ℕ} (hle : r' ≤ r) (hm : r ≤ m) :
    harmonic r' + ((r : ℚ) - r') / m ≤ harmonic r := by
  induction hle with
  | refl => simp
  | @step r hle ih =>
    have hprevious := ih (by omega)
    have hinv : (1 : ℚ) / m ≤ ((r + 1 : ℕ) : ℚ)⁻¹ := by
      rw [one_div]
      exact inv_anti₀ (by positivity) (by exact_mod_cast hm)
    rw [harmonic_succ]
    have hsplit : (((r + 1 : ℕ) : ℚ) - r') / m = ((r : ℚ) - r') / m + 1 / m := by
      push_cast
      ring
    rw [hsplit]
    linarith

/-! ## The potential of the rivals -/

/-- **The potential** that rivals have against what is covered. -/
def potential (rivals : Finset κ) (rivalSets : κ → Finset β) (covered : Finset β) : ℚ :=
  ∑ k ∈ rivals, harmonic (rivalSets k \ covered).card

lemma potential_nonneg (rivals : Finset κ) (rivalSets : κ → Finset β) (covered : Finset β) :
    0 ≤ potential rivals rivalSets covered :=
  Finset.sum_nonneg fun k _ => by simpa using harmonic_mono (Nat.zero_le _)

/-- Rivals that cover a set lose at least its size together when it is taken. -/
lemma card_le_sum_inter {rivals : Finset κ} {rivalSets : κ → Finset β} {covered gained : Finset β}
    (hcover : gained ⊆ rivals.biUnion rivalSets) (hnew : Disjoint covered gained) :
    gained.card ≤ ∑ k ∈ rivals, ((rivalSets k \ covered) ∩ gained).card := by
  have hsubset : gained ⊆ rivals.biUnion fun k => (rivalSets k \ covered) ∩ gained := by
    intro x hx
    obtain ⟨k, hk, hxk⟩ := Finset.mem_biUnion.1 (hcover hx)
    have hfresh : x ∉ covered := fun hxc => Finset.disjoint_left.1 hnew hxc hx
    exact Finset.mem_biUnion.2 ⟨k, hk, by simp [hxk, hfresh, hx]⟩
  exact (Finset.card_le_card hsubset).trans Finset.card_biUnion_le

/-- **A pick that no rival beats lowers the potential by one.** -/
theorem one_add_potential_le {rivals : Finset κ} {rivalSets : κ → Finset β}
    {covered gained : Finset β} (hpos : 0 < gained.card)
    (hcover : gained ⊆ rivals.biUnion rivalSets) (hnew : Disjoint covered gained)
    (hbest : ∀ k ∈ rivals, (rivalSets k \ covered).card ≤ gained.card) :
    1 + potential rivals rivalSets (covered ∪ gained) ≤ potential rivals rivalSets covered := by
  have hm : (0 : ℚ) < gained.card := by exact_mod_cast hpos
  have hstep : ∀ k ∈ rivals,
      harmonic (rivalSets k \ (covered ∪ gained)).card
        + (((rivalSets k \ covered) ∩ gained).card : ℚ) / gained.card
        ≤ harmonic (rivalSets k \ covered).card := by
    intro k hk
    have hleft : rivalSets k \ (covered ∪ gained) = (rivalSets k \ covered) \ gained :=
      sdiff_sdiff_left.symm
    have hparts := Finset.card_sdiff_add_card_inter (rivalSets k \ covered) gained
    have hlost : (((rivalSets k \ covered) ∩ gained).card : ℚ)
        = (rivalSets k \ covered).card - ((rivalSets k \ covered) \ gained).card := by
      rw [← hparts]
      push_cast
      ring
    rw [hleft, hlost]
    exact harmonic_add_div_le (Finset.card_le_card Finset.sdiff_subset) (hbest k hk)
  have hone : (1 : ℚ)
      ≤ ∑ k ∈ rivals, (((rivalSets k \ covered) ∩ gained).card : ℚ) / gained.card := by
    rw [← Finset.sum_div, le_div_iff₀ hm, one_mul]
    exact_mod_cast card_le_sum_inter hcover hnew
  calc 1 + potential rivals rivalSets (covered ∪ gained)
      ≤ ∑ k ∈ rivals, (((rivalSets k \ covered) ∩ gained).card : ℚ) / gained.card
          + potential rivals rivalSets (covered ∪ gained) := by linarith
    _ = ∑ k ∈ rivals, (harmonic (rivalSets k \ (covered ∪ gained)).card
          + (((rivalSets k \ covered) ∩ gained).card : ℚ) / gained.card) := by
        rw [potential, ← Finset.sum_add_distrib]
        exact Finset.sum_congr rfl fun k _ => add_comm _ _
    _ ≤ potential rivals rivalSets covered := Finset.sum_le_sum hstep

/-- **A greedy run is no longer than the potential of its rivals.** -/
theorem length_le_potential {sets : α → Finset β} {rivals : Finset κ} {rivalSets : κ → Finset β}
    {earlier picks : List α}
    (hpicks : EachPick (fun earlier a => 0 < (gain sets earlier a).card ∧
      ∀ k ∈ rivals, (rivalSets k \ coverage sets earlier).card ≤ (gain sets earlier a).card)
      earlier picks)
    (hcover : ∀ a ∈ picks, sets a ⊆ rivals.biUnion rivalSets) :
    (picks.length : ℚ) ≤ potential rivals rivalSets (coverage sets earlier) := by
  induction picks generalizing earlier with
  | nil => simpa using potential_nonneg rivals rivalSets (coverage sets earlier)
  | cons a later ih =>
    obtain ⟨⟨hpos, hbest⟩, hlater⟩ := hpicks
    have hgain : gain sets earlier a ⊆ rivals.biUnion rivalSets :=
      Finset.sdiff_subset.trans (hcover a List.mem_cons_self)
    have hrest := ih hlater fun b hb => hcover b (List.mem_cons_of_mem _ hb)
    rw [coverage_concat_eq_gain] at hrest
    have hdrop := one_add_potential_le hpos hgain (disjoint_gain sets earlier a) hbest
    rw [List.length_cons]
    push_cast
    linarith

/-- The potential of rivals whose sets have at most `d` elements. -/
lemma potential_le {rivals : Finset κ} {rivalSets : κ → Finset β} {d : ℕ}
    (hd : ∀ k ∈ rivals, (rivalSets k).card ≤ d) :
    potential rivals rivalSets ∅ ≤ harmonic d * rivals.card := by
  have hsum : potential rivals rivalSets ∅ ≤ ∑ _k ∈ rivals, harmonic d :=
    Finset.sum_le_sum fun k hk => harmonic_mono (by simpa using hd k hk)
  rwa [Finset.sum_const, nsmul_eq_mul, mul_comm] at hsum

end BenchCover
