import BenchCover.Graph.Basic
import Mathlib.Data.ENat.Lattice
import Mathlib.Tactic.Lemma

/-!
# Distances in call graphs

What the walks of `BenchCover/Graph/Walk.lean` are measured against, said without a queue.

* `CallGraph.Steps` — a chain of so many calls leads from one function to another.
* `CallGraph.Reaches` — a chain of some length does; the relation is reflexive and transitive.
* `CallGraph.IsDistance` — the length of a shortest chain.
* `CallGraph.depth` — the length of a shortest chain from a function that nothing calls, and `⊤` if
  there is none.  A function on a cycle that no such function leads to has no depth.
-/

namespace BenchCover

namespace CallGraph

variable {g : CallGraph} {a b c : FunctionId}

/-- **A chain of calls**, with the number of calls in it. -/
inductive Steps (g : CallGraph) (a : FunctionId) : ℕ → FunctionId → Prop
  | start : Steps g a 0 a
  | call {n : ℕ} {b c : FunctionId} : Steps g a n b → c ∈ g.callees b → Steps g a (n + 1) c

/-- One function reaches another if some chain of calls leads there. -/
def Reaches (g : CallGraph) (a b : FunctionId) : Prop :=
  ∃ n, g.Steps a n b

/-- The least number of calls that lead from one function to another. -/
def IsDistance (g : CallGraph) (a b : FunctionId) (n : ℕ) : Prop :=
  IsLeast {n | g.Steps a n b} n

/-- A function of the graph that no call leads to. -/
def IsRoot (g : CallGraph) (a : FunctionId) : Prop :=
  a ∈ g.ids ∧ ∀ call ∈ g.calls, call.callee ≠ a

/-- **The depth of a function**: the least number of calls that lead to it from a root, and `⊤` if
no root reaches it. -/
noncomputable def depth (g : CallGraph) (b : FunctionId) : ℕ∞ :=
  sInf {d : ℕ∞ | ∃ n : ℕ, d = n ∧ ∃ root, g.IsRoot root ∧ g.Steps root n b}

lemma Steps.trans {m n : ℕ} (hab : g.Steps a m b) (hbc : g.Steps b n c) :
    g.Steps a (m + n) c := by
  induction hbc with
  | start => exact hab
  | call _ hcallee ih => exact ih.call hcallee

lemma Reaches.refl (g : CallGraph) (a : FunctionId) : g.Reaches a a :=
  ⟨0, .start⟩

lemma Reaches.trans (hab : g.Reaches a b) (hbc : g.Reaches b c) : g.Reaches a c := by
  obtain ⟨m, hm⟩ := hab
  obtain ⟨n, hn⟩ := hbc
  exact ⟨m + n, hm.trans hn⟩

lemma Reaches.call (hab : g.Reaches a b) (hbc : c ∈ g.callees b) : g.Reaches a c := by
  obtain ⟨n, hn⟩ := hab
  exact ⟨n + 1, hn.call hbc⟩

/-- Whatever is reached has a distance. -/
lemma Reaches.exists_isDistance (hab : g.Reaches a b) : ∃ n, g.IsDistance a b n := by
  classical
  exact ⟨Nat.find hab, Nat.find_spec hab, fun n hn => Nat.find_min' hab hn⟩

lemma IsDistance.reaches {n : ℕ} (h : g.IsDistance a b n) : g.Reaches a b :=
  ⟨n, h.1⟩

lemma mem_ids_of_mem_callees_left (h : b ∈ g.callees a) : a ∈ g.ids := by
  obtain ⟨call, hmem, hends⟩ := mem_callees.1 h
  have hcaller := g.caller_mem call hmem
  rwa [show call.caller = a from congrArg Prod.fst hends] at hcaller

/-- Chains of calls do not leave the graph. -/
lemma Steps.mem_ids {n : ℕ} (h : g.Steps a n b) (ha : a ∈ g.ids) : b ∈ g.ids := by
  cases h with
  | start => exact ha
  | call _ hcallee => exact mem_ids_of_mem_callees hcallee

lemma Reaches.mem_ids (h : g.Reaches a b) (ha : a ∈ g.ids) : b ∈ g.ids := by
  obtain ⟨n, hn⟩ := h
  exact hn.mem_ids ha

/-- The roots that the graph lists are the functions that no call leads to. -/
lemma mem_roots_iff : a ∈ g.roots ↔ g.IsRoot a := by
  simp only [roots, IsRoot, callers, callsTo, List.mem_filter, List.isEmpty_iff, List.map_eq_nil_iff,
    List.filter_eq_nil_iff, List.mem_reverse, decide_eq_true_eq, ne_eq]

/-! ## Functions by id -/

/-- Looking up an id finds the one function that has it. -/
lemma function?_eq_some_iff {id : FunctionId} {f : Function} :
    g.function? id = some f ↔ f ∈ g.functions ∧ f.id = id := by
  constructor
  · intro h
    exact ⟨List.mem_of_find?_eq_some h, by simpa using List.find?_some h⟩
  · rintro ⟨hmem, rfl⟩
    obtain ⟨other, hother⟩ : ∃ other, g.function? f.id = some other := by
      rw [← Option.isSome_iff_exists, function?, List.find?_isSome]
      exact ⟨f, hmem, by simp⟩
    have hsame : other.id = f.id := by simpa using List.find?_some hother
    rw [hother, List.inj_on_of_nodup_map g.ids_nodup (List.mem_of_find?_eq_some hother) hmem hsame]

lemma function?_eq_none_iff {id : FunctionId} : g.function? id = none ↔ id ∉ g.ids := by
  simp [function?, ids]

lemma mem_ids_iff {id : FunctionId} : id ∈ g.ids ↔ ∃ f ∈ g.functions, f.id = id := by
  simp [ids]

lemma eq_of_id_eq {f h : Function} (hf : f ∈ g.functions) (hh : h ∈ g.functions)
    (hsame : f.id = h.id) : f = h :=
  List.inj_on_of_nodup_map g.ids_nodup hf hh hsame

end CallGraph

end BenchCover
