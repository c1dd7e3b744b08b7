import BenchCover.Suite.Greedy
import Mathlib.Algebra.GroupWithZero.Nat
import Mathlib.Algebra.Order.BigOperators.Group.List
import Mathlib.Data.Finset.Card
import Mathlib.Data.Finset.Union
import Mathlib.Order.Defs.LinearOrder
import Mathlib.Tactic.Lemma

/-!
# Greedy runs

What the two analyses of a suite have in common, in three groups.

**Ranking.**  When an order of picks compares ranks in a linear order, the first element of a ranked
list has the least rank: `rank_le_of_ranked`.

**Runs.**  `EachPick p earlier picks` says that every element of `picks` has the property `p` after
the elements in front of it.  A loop that picks one element after the other proves it step by step,
and `eachPick_iff` reads it back as a statement about every place of the list.

**Coverage.**  `coverage` is what picks cover together, `gain` is what a pick covers that the
earlier ones do not.  Gains are disjoint, so their sizes add up to the size of the coverage
(`card_coverage_append`).
-/

namespace BenchCover

variable {α β γ : Type}

/-! ## Ranking -/

lemma eq_nil_of_ranked {before : α → α → Bool} {l : List α} (h : ranked before l = []) :
    l = [] := by
  rw [← List.length_eq_zero_iff, ← (perm_ranked before l).length_eq, h, List.length_nil]

lemma ranked_of_pairwise {before : α → α → Bool} {l : List α}
    (h : l.Pairwise fun a b => (!before b a) = true) : ranked before l = l :=
  List.mergeSort_of_pairwise h

section Ranking

variable [LinearOrder γ] {before : α → α → Bool} {rank : α → γ}

lemma pairwise_ranked (hrank : ∀ a b, before a b = true ↔ rank a < rank b) (l : List α) :
    (ranked before l).Pairwise fun a b => rank a ≤ rank b := by
  have hle : ∀ a b, (!before a b) = true ↔ rank b ≤ rank a := by
    intro a b
    rw [Bool.not_eq_true', ← Bool.not_eq_true, hrank, not_lt]
  refine (List.pairwise_mergeSort ?_ ?_ l).imp fun {a b} hab => (hle b a).1 hab
  · intro a b c hab hbc
    exact (hle c a).2 (((hle b a).1 hab).trans ((hle c b).1 hbc))
  · intro a b
    rw [Bool.or_eq_true, hle, hle]
    exact le_total _ _

lemma mem_iff_of_ranked {l others : List α} {best a : α}
    (h : ranked before l = best :: others) : a ∈ l ↔ a = best ∨ a ∈ others := by
  rw [← (perm_ranked before l).mem_iff, h, List.mem_cons]

/-- **The first element of a ranked list is a best one.** -/
lemma rank_le_of_ranked (hrank : ∀ a b, before a b = true ↔ rank a < rank b)
    {l others : List α} {best a : α} (h : ranked before l = best :: others) (ha : a ∈ l) :
    rank best ≤ rank a := by
  have hpairwise := pairwise_ranked hrank l
  rw [h] at hpairwise
  rcases (mem_iff_of_ranked h).1 ha with rfl | ha
  · exact le_refl _
  · exact List.rel_of_pairwise_cons hpairwise ha

end Ranking

/-! ## Runs -/

/-- **Every element of a list has a property** that may depend on the elements in front of it. -/
def EachPick (p : List α → α → Prop) : (earlier picks : List α) → Prop
  | _, [] => True
  | earlier, a :: later => p earlier a ∧ EachPick p (earlier ++ [a]) later

theorem eachPick_iff {p : List α → α → Prop} {earlier picks : List α} :
    EachPick p earlier picks ↔
      ∀ front a back, picks = front ++ a :: back → p (earlier ++ front) a := by
  induction picks generalizing earlier with
  | nil => simp [EachPick]
  | cons b later ih =>
    rw [EachPick, ih]
    constructor
    · rintro ⟨hb, hlater⟩ front a back hsplit
      cases front with
      | nil =>
        obtain ⟨rfl, -⟩ := List.cons.inj hsplit
        simpa using hb
      | cons c front =>
        obtain ⟨rfl, hback⟩ := List.cons.inj hsplit
        simpa using hlater front a back hback
    · intro h
      refine ⟨by simpa using h [] b later rfl, fun front a back hsplit => ?_⟩
      simpa using h (b :: front) a back (by rw [hsplit, List.cons_append])

lemma EachPick.imp {p q : List α → α → Prop} {earlier picks : List α}
    (h : EachPick p earlier picks) (hpq : ∀ earlier a, p earlier a → q earlier a) :
    EachPick q earlier picks := by
  induction picks generalizing earlier with
  | nil => trivial
  | cons a later ih => exact ⟨hpq _ _ h.1, ih h.2⟩

/-- Every element stands in a relation to those behind it, if what holds of the two says so. -/
lemma EachPick.pairwise_of_split {p : List α → α → Prop} {r : α → α → Prop} {earlier picks : List α}
    (h : EachPick p earlier picks)
    (hr : ∀ front a between b, p front a → p (front ++ a :: between) b → r a b) :
    picks.Pairwise r := by
  induction picks generalizing earlier with
  | nil => exact .nil
  | cons a later ih =>
    refine List.pairwise_cons.2 ⟨fun b hb => ?_, ih h.2⟩
    obtain ⟨between, back, rfl⟩ := List.append_of_mem hb
    have hlater := eachPick_iff.1 h.2 between b back rfl
    rw [List.append_assoc, List.singleton_append] at hlater
    exact hr earlier a between b h.1 hlater

/-- It does so already if what holds of the later one says so. -/
lemma EachPick.pairwise {p : List α → α → Prop} {r : α → α → Prop} {earlier picks : List α}
    (h : EachPick p earlier picks) (hr : ∀ earlier a, p earlier a → ∀ b ∈ earlier, r b a) :
    picks.Pairwise r :=
  h.pairwise_of_split fun _ b _ a _ ha => hr _ a ha b (by simp)

/-! ## Coverage -/

section Coverage

variable [DecidableEq α] [DecidableEq β] {sets : α → Finset β} {earlier picks : List α} {a : α}

/-- What picks cover together. -/
def coverage (sets : α → Finset β) (picks : List α) : Finset β :=
  picks.toFinset.biUnion sets

/-- What a pick covers that the earlier ones do not. -/
def gain (sets : α → Finset β) (earlier : List α) (a : α) : Finset β :=
  sets a \ coverage sets earlier

@[simp] lemma coverage_nil (sets : α → Finset β) : coverage sets [] = ∅ := rfl

@[simp] lemma mem_coverage {x : β} : x ∈ coverage sets picks ↔ ∃ a ∈ picks, x ∈ sets a := by
  simp [coverage]

lemma coverage_append (sets : α → Finset β) (earlier later : List α) :
    coverage sets (earlier ++ later) = coverage sets earlier ∪ coverage sets later := by
  rw [coverage, List.toFinset_append, Finset.union_biUnion]
  rfl

lemma coverage_concat (sets : α → Finset β) (earlier : List α) (a : α) :
    coverage sets (earlier ++ [a]) = coverage sets earlier ∪ sets a := by
  rw [coverage_append]
  simp [coverage]

lemma disjoint_coverage {s : Finset β} (hs : ∀ a ∈ picks, Disjoint s (sets a)) :
    Disjoint s (coverage sets picks) :=
  (Finset.disjoint_biUnion_right _ _ _).2 fun a ha => hs a (List.mem_toFinset.1 ha)

/-- What was gained is disjoint from what was covered before. -/
lemma disjoint_gain (sets : α → Finset β) (earlier : List α) (a : α) :
    Disjoint (coverage sets earlier) (gain sets earlier a) :=
  Finset.disjoint_sdiff

lemma coverage_concat_eq_gain (sets : α → Finset β) (earlier : List α) (a : α) :
    coverage sets (earlier ++ [a]) = coverage sets earlier ∪ gain sets earlier a := by
  rw [coverage_concat, gain, Finset.union_sdiff_self_eq_union]

lemma sdiff_coverage_concat (s : Finset β) (sets : α → Finset β) (earlier : List α) (a : α) :
    s \ coverage sets (earlier ++ [a]) = (s \ coverage sets earlier) \ gain sets earlier a := by
  rw [coverage_concat_eq_gain, sdiff_sdiff_left]
  rfl

/-- The gains of picks, one after the other. -/
def gains (sets : α → Finset β) : (earlier picks : List α) → List (Finset β)
  | _, [] => []
  | earlier, a :: later => gain sets earlier a :: gains sets (earlier ++ [a]) later

/-- Gains are disjoint from whatever the sets are disjoint from, and from each other. -/
lemma pairwise_disjoint_gains {s : Finset β} (earlier : List α) (hs : ∀ a ∈ picks, Disjoint s (sets a)) :
    ((s ∪ coverage sets earlier) :: gains sets earlier picks).Pairwise Disjoint := by
  induction picks generalizing earlier s with
  | nil => exact List.pairwise_singleton _ _
  | cons a later ih =>
    have hnew : Disjoint (s ∪ coverage sets earlier) (gain sets earlier a) :=
      Finset.disjoint_union_left.2 ⟨(hs a List.mem_cons_self).mono_right Finset.sdiff_subset,
        disjoint_gain sets earlier a⟩
    have hrest : ((s ∪ coverage sets (earlier ++ [a])) ::
        gains sets (earlier ++ [a]) later).Pairwise Disjoint :=
      ih (earlier ++ [a]) fun b hb => hs b (List.mem_cons_of_mem _ hb)
    rw [coverage_concat_eq_gain, ← Finset.union_assoc, List.pairwise_cons] at hrest
    rw [gains, List.pairwise_cons, List.pairwise_cons]
    refine ⟨fun t ht => ?_, fun t ht => ?_, hrest.2⟩
    · rcases List.mem_cons.1 ht with rfl | ht
      · exact hnew
      · exact (hrest.1 t ht).mono_left Finset.subset_union_left
    · exact (hrest.1 t ht).mono_left Finset.subset_union_right

/-- Gains add up to what is covered. -/
lemma foldl_union_gains (s : Finset β) (sets : α → Finset β) (earlier picks : List α) :
    (gains sets earlier picks).foldl (· ∪ ·) (s ∪ coverage sets earlier)
      = s ∪ coverage sets (earlier ++ picks) := by
  induction picks generalizing earlier with
  | nil => rw [gains, List.foldl_nil, List.append_nil]
  | cons a later ih =>
    have hrest := ih (earlier ++ [a])
    rwa [coverage_concat_eq_gain, ← Finset.union_assoc, List.append_assoc,
      List.singleton_append] at hrest

/-- **Sizes of gains add up** to what is covered. -/
theorem card_coverage_append {size : α → ℕ}
    (hsize : EachPick (fun earlier a => size a = (gain sets earlier a).card) earlier picks) :
    (coverage sets (earlier ++ picks)).card
      = (coverage sets earlier).card + (picks.map size).sum := by
  induction picks generalizing earlier with
  | nil => simp
  | cons a later ih =>
    obtain ⟨ha, hlater⟩ := hsize
    have hrest := ih hlater
    rw [List.append_assoc, List.singleton_append] at hrest
    rw [hrest, coverage_concat_eq_gain, Finset.card_union_of_disjoint (disjoint_gain sets earlier a),
      ← ha, List.map_cons, List.sum_cons]
    omega

end Coverage

end BenchCover
