import BenchCover.Proofs.Suite.Recommendation
import Mathlib.Algebra.Order.BigOperators.Group.Finset
import Mathlib.Tactic.Linarith
import Mathlib.Tactic.Ring

/-!
# How much of the best cover a few greedy picks have

The counterpart of `BenchCover/Proofs/Suite/CoverBound.lean`, with the number of picks given and the
coverage compared.  A run of picks competes with at most `k` rivals, and every pick gains at least
as much as any rival still offers.

What the rivals cover and the picks do not is shared by `k` rivals, so the next pick gains at least
a `k`-th part of it (`card_left_le`).  With every pick the distance to the rivals therefore shrinks
by the factor `(k - 1) / k` at least.  It is an integer and may turn negative, when the picks cover
more than the rivals; multiplied out, no fraction is needed (`shortfall_le`).

After `k` picks the distance is at most the part `((k - 1) / k) ^ k` of what it was at the start:
`Suite.recommend_share`.
-/

namespace BenchCover

variable {α β κ : Type} [DecidableEq α] [DecidableEq β] {sets : α → Finset β}
  {rivals : Finset κ} {rivalSets : κ → Finset β} {k : ℕ}

/-! ## The shortfall -/

/-- What `k` rivals have left together is at most `k` times what each of them has left. -/
lemma card_left_le {covered : Finset β} {m : ℕ} (hcount : rivals.card ≤ k)
    (hleft : ∀ r ∈ rivals, (rivalSets r \ covered).card ≤ m) :
    (rivals.biUnion rivalSets \ covered).card ≤ k * m := by
  have hsubset : rivals.biUnion rivalSets \ covered
      ⊆ rivals.biUnion fun r => rivalSets r \ covered := by
    intro x hx
    obtain ⟨hx, hnot⟩ := Finset.mem_sdiff.1 hx
    obtain ⟨r, hr, hxr⟩ := Finset.mem_biUnion.1 hx
    exact Finset.mem_biUnion.2 ⟨r, hr, Finset.mem_sdiff.2 ⟨hxr, hnot⟩⟩
  calc (rivals.biUnion rivalSets \ covered).card
      ≤ (rivals.biUnion fun r => rivalSets r \ covered).card := Finset.card_le_card hsubset
    _ ≤ rivals.card * m := Finset.card_biUnion_le_card_mul _ _ _ hleft
    _ ≤ k * m := Nat.mul_le_mul_right m hcount

/-- **By how much a coverage falls short** of what rivals cover; negative if it is larger. -/
def shortfall (rivals : Finset κ) (rivalSets : κ → Finset β) (covered : Finset β) : ℤ :=
  (rivals.biUnion rivalSets).card - covered.card

lemma shortfall_le_card_left (covered : Finset β) :
    shortfall rivals rivalSets covered ≤ (rivals.biUnion rivalSets \ covered).card := by
  have hle := Finset.le_card_sdiff covered (rivals.biUnion rivalSets)
  rw [shortfall]
  omega

/-- **A pick that no rival beats** takes a `k`-th part of the shortfall away. -/
lemma mul_shortfall_concat_le {earlier : List α} {a : α} (hcount : rivals.card ≤ k)
    (hbest : ∀ r ∈ rivals, (rivalSets r \ coverage sets earlier).card ≤ (gain sets earlier a).card) :
    (k : ℤ) * shortfall rivals rivalSets (coverage sets (earlier ++ [a]))
      ≤ (k - 1) * shortfall rivals rivalSets (coverage sets earlier) := by
  have hgain : shortfall rivals rivalSets (coverage sets (earlier ++ [a]))
      = shortfall rivals rivalSets (coverage sets earlier) - (gain sets earlier a).card := by
    rw [shortfall, shortfall, coverage_concat_eq_gain,
      Finset.card_union_of_disjoint (disjoint_gain sets earlier a)]
    push_cast
    ring
  have hpart : shortfall rivals rivalSets (coverage sets earlier)
      ≤ (k : ℤ) * (gain sets earlier a).card :=
    (shortfall_le_card_left _).trans (by exact_mod_cast card_left_le hcount hbest)
  rw [hgain]
  linarith

/-- **A run of picks that no rival beats** multiplies the shortfall by `(k - 1) / k` for each of
them. -/
theorem shortfall_le {earlier picks : List α} (hk : 1 ≤ k) (hcount : rivals.card ≤ k)
    (hpicks : EachPick (fun earlier a => ∀ r ∈ rivals,
      (rivalSets r \ coverage sets earlier).card ≤ (gain sets earlier a).card) earlier picks) :
    (k : ℤ) ^ picks.length * shortfall rivals rivalSets (coverage sets (earlier ++ picks))
      ≤ (k - 1) ^ picks.length * shortfall rivals rivalSets (coverage sets earlier) := by
  induction picks generalizing earlier with
  | nil => simp
  | cons a later ih =>
    obtain ⟨hbest, hlater⟩ := hpicks
    have hrest := ih hlater
    rw [List.append_assoc, List.singleton_append] at hrest
    have hk' : (1 : ℤ) ≤ k := by exact_mod_cast hk
    rw [List.length_cons]
    calc (k : ℤ) ^ (later.length + 1)
          * shortfall rivals rivalSets (coverage sets (earlier ++ a :: later))
        = k * (k ^ later.length
            * shortfall rivals rivalSets (coverage sets (earlier ++ a :: later))) := by ring
      _ ≤ k * ((k - 1) ^ later.length
            * shortfall rivals rivalSets (coverage sets (earlier ++ [a]))) :=
          mul_le_mul_of_nonneg_left hrest (by linarith)
      _ = (k - 1) ^ later.length
            * (k * shortfall rivals rivalSets (coverage sets (earlier ++ [a]))) := by ring
      _ ≤ (k - 1) ^ later.length
            * ((k - 1) * shortfall rivals rivalSets (coverage sets earlier)) :=
          mul_le_mul_of_nonneg_left (mul_shortfall_concat_le hcount hbest)
            (pow_nonneg (by linarith) _)
      _ = (k - 1) ^ (later.length + 1)
            * shortfall rivals rivalSets (coverage sets earlier) := by ring

/-- **The share of the rivals' coverage that `k` picks have**, without fractions. -/
theorem share_le_card_coverage {picks : List α} (hk : 1 ≤ k) (hcount : rivals.card ≤ k)
    (hlength : picks.length = k)
    (hpicks : EachPick (fun earlier a => ∀ r ∈ rivals,
      (rivalSets r \ coverage sets earlier).card ≤ (gain sets earlier a).card) [] picks) :
    (k ^ k - (k - 1) ^ k) * (rivals.biUnion rivalSets).card
      ≤ k ^ k * (coverage sets picks).card := by
  have hrun := shortfall_le hk hcount hpicks
  rw [hlength, List.nil_append, coverage_nil, shortfall, shortfall, Finset.card_empty] at hrun
  have hpow : (k - 1) ^ k ≤ k ^ k := Nat.pow_le_pow_left (Nat.sub_le k 1) k
  zify [hk, hpow]
  push_cast at hrun
  linarith

/-! ## The share of a recommendation -/

namespace Suite

/-- **Greedy recommendations have a fixed share of the best coverage.**  Take any `k` functions that
may be recommended, or fewer.  The `k` functions that are recommended add together at least the
share `1 - (1 - 1/k) ^ k` of what those reach anew. -/
theorem recommend_share (suite : Suite) (projects : ProjectPrefixes) (overlap : SuiteOverlap)
    (k : ℕ) (hk : 1 ≤ k) (rivals : Finset Function)
    (hrivals : ∀ f ∈ rivals, suite.MayRecommend projects overlap f) (hcount : rivals.card ≤ k) :
    (k ^ k - (k - 1) ^ k) * (rivals.biUnion (suite.newlyReached projects overlap true)).card
      ≤ k ^ k * ((recommend projects suite overlap k).map (·.additional)).sum := by
  obtain ⟨hlength, hpicks, hcovered⟩ := suite.recommend_spec projects overlap k
  rw [← card_taken hpicks]
  rcases lt_or_eq_of_le hlength with hshort | hfull
  · -- with picks to spare, nothing is left that the rivals could have
    have hsubset : rivals.biUnion (suite.newlyReached projects overlap true)
        ⊆ suite.taken projects overlap (recommend projects suite overlap k) true :=
      Finset.biUnion_subset.2 fun f hf => hcovered hshort f (hrivals f hf)
    exact Nat.mul_le_mul (Nat.sub_le _ _) (Finset.card_le_card hsubset)
  · refine share_le_card_coverage hk hcount hfull (hpicks.imp fun earlier r hbest f hf => ?_)
    have hle := hbest.card_le (hrivals f hf)
    rwa [hbest.additional] at hle

theorem recommend_share_tangled :
    (2 ^ 2 - (2 - 1) ^ 2) * (({⟨0, "p/a", .zero, .zero⟩, ⟨3, "p/c", .zero, .zero⟩} :
        Finset Function).biUnion
          (tangled.newlyReached ⟨["p/"]⟩ (tangled.overlap ⟨["p/"]⟩ true) true)).card
      ≤ 2 ^ 2 * 2 := by
  have hsum : ((recommend ⟨["p/"]⟩ tangled (tangled.overlap ⟨["p/"]⟩ true) 2).map
      (·.additional)).sum = 2 := by
    rw [recommend, prospects_tangled, Prospect.recommend, ranked_of_pairwise (by decide +kernel)]
    show (List.map _ (_ :: Prospect.recommend 1 [⟨⟨3, "p/c", .zero, .zero⟩, some 0, .ofList [3],
      .empty⟩])).sum = 2
    rw [Prospect.recommend, ranked_of_pairwise (by decide +kernel)]
    rfl
  have hmay : ∀ f ∈ ({⟨0, "p/a", .zero, .zero⟩, ⟨3, "p/c", .zero, .zero⟩} : Finset Function),
      tangled.MayRecommend ⟨["p/"]⟩ (tangled.overlap ⟨["p/"]⟩ true) f := by
    intro f hf
    rcases Finset.mem_insert.1 hf with rfl | hf
    · exact ⟨by decide, by decide +kernel, by decide +kernel⟩
    · rw [Finset.mem_singleton] at hf
      subst hf
      exact ⟨by decide, by decide +kernel, by decide +kernel⟩
  have hshare := recommend_share tangled ⟨["p/"]⟩ (tangled.overlap ⟨["p/"]⟩ true) 2 (by decide)
    _ hmay (by decide)
  rwa [hsum] at hshare

end Suite

end BenchCover
