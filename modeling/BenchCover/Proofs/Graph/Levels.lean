import BenchCover.Graph.Levels
import BenchCover.Proofs.Graph.Walk

/-!
# Levels are least distances

`CallGraph.levels` walks from one root after the other and keeps the least distance at which each
function was met.  Read as elements of `ℕ∞`, with `⊤` for a function without a level, the levels are
infima: `le_value_levels_iff` bounds a level from below by the distances from the roots at which the
function is not left out.

For the roots of the graph itself, and a function that is left out at no distance, the level is the
depth (`value_levels_roots`).
-/

namespace BenchCover

namespace Levels

/-- A level as a number, where no level at all is above every number. -/
def value : Option Nat → ℕ∞
  | none => ⊤
  | some level => level

@[simp] lemma value_none : value none = ⊤ := rfl

@[simp] lemma value_some (level : Nat) : value (some level) = level := rfl

lemma value_injective : Function.Injective value := by
  intro a b h
  cases a <;> cases b <;> simp_all

/-- The level of a function after one visit was taken into account. -/
lemma level?_record (exclusion : Exclusion) (levels : Levels) (visit : Function × Nat)
    (id : FunctionId) :
    value ((levels.record exclusion visit).level? id)
      = if visit.1.id = id ∧ exclusion.excludes visit.1 (some visit.2) = false
        then min (value (levels.level? id)) visit.2 else value (levels.level? id) := by
  obtain ⟨f, distance⟩ := visit
  cases hexcluded : exclusion.excludes f (some distance) with
  | true => simp [record, level?, hexcluded]
  | false =>
    simp only [record, level?, hexcluded, Bool.false_eq_true, if_false, SortedMap.lookup_upsert,
      and_true]
    split_ifs with hsame
    · subst hsame
      cases levels.recorded.lookup f.id with
      | none => simp
      | some level => exact Nat.mono_cast.map_min
    · rfl

/-- **The levels of a list of visits** are the least distances in it. -/
lemma le_value_foldl_record_iff (exclusion : Exclusion) (visits : List (Function × Nat))
    (levels : Levels) (id : FunctionId) (n : ℕ∞) :
    n ≤ value ((visits.foldl (record exclusion) levels).level? id) ↔
      n ≤ value (levels.level? id) ∧
        ∀ visit ∈ visits, visit.1.id = id →
          exclusion.excludes visit.1 (some visit.2) = false → n ≤ visit.2 := by
  induction visits generalizing levels with
  | nil => simp
  | cons visit rest ih =>
    rw [List.foldl_cons, ih, level?_record, List.forall_mem_cons]
    split_ifs with hcounted
    · rw [le_min_iff]
      tauto
    · tauto

end Levels

namespace CallGraph

variable {g : CallGraph}

/-- **A level is the least distance from a root** at which the function is not left out. -/
theorem le_value_levels_iff (roots : List FunctionId) (exclusion : Exclusion) {f : Function}
    (hf : f ∈ g.functions) (n : ℕ∞) :
    n ≤ Levels.value ((g.levels roots exclusion).level? f.id) ↔
      ∀ root ∈ roots, root ∈ g.ids → ∀ distance, g.IsDistance root f.id distance →
        exclusion.excludes f (some distance) = false → n ≤ distance := by
  rw [levels, Levels.le_value_foldl_record_iff]
  have hnone : Levels.value ((⟨0, .empty⟩ : Levels).level? f.id) = ⊤ := rfl
  simp only [hnone, le_top, true_and, List.mem_flatMap]
  constructor
  · intro h root hroot hknown distance hdistance hcounted
    exact h (f, distance) ⟨root, hroot, (mem_visits_iff hknown).2 ⟨hf, hdistance⟩⟩ rfl hcounted
  · rintro h ⟨other, distance⟩ ⟨root, hroot, hvisit⟩ hid hcounted
    by_cases hknown : root ∈ g.ids
    · obtain ⟨hother, hdistance⟩ := (mem_visits_iff hknown).1 hvisit
      obtain rfl : other = f := eq_of_id_eq hother hf hid
      exact h root hroot hknown distance hdistance hcounted
    · simp [visits_eq_nil hknown] at hvisit

/-- A depth is bounded from below by the distances from the roots. -/
lemma le_depth_iff {b : FunctionId} (n : ℕ∞) :
    n ≤ g.depth b ↔ ∀ root, g.IsRoot root → ∀ distance, g.IsDistance root b distance →
      n ≤ distance := by
  rw [depth, le_sInf_iff]
  constructor
  · intro h root hroot distance hdistance
    exact h distance ⟨distance, rfl, root, hroot, hdistance.1⟩
  · rintro h _ ⟨m, rfl, root, hroot, hsteps⟩
    obtain ⟨distance, hdistance⟩ := Reaches.exists_isDistance ⟨m, hsteps⟩
    exact (h root hroot distance hdistance).trans (Nat.cast_le.2 (hdistance.2 hsteps))

/-- **Below the roots of the graph, levels are depths.** -/
theorem value_levels_roots (exclusion : Exclusion) {f : Function} (hf : f ∈ g.functions)
    (hcounted : ∀ distance, exclusion.excludes f (some distance) = false) :
    Levels.value ((g.levels g.roots exclusion).level? f.id) = g.depth f.id := by
  refine eq_of_forall_le_iff fun n => ?_
  rw [le_value_levels_iff g.roots exclusion hf, le_depth_iff]
  constructor
  · intro h root hroot distance hdistance
    exact h root (mem_roots_iff.2 hroot) hroot.1 distance hdistance (hcounted distance)
  · intro h root hroot _ distance hdistance _
    exact h root (mem_roots_iff.1 hroot) distance hdistance

end CallGraph

end BenchCover
