import BenchCover.Function.IdSet
import BenchCover.Sorted.Map
import Mathlib.Data.Finset.Card
import Mathlib.Data.List.Sort
import Mathlib.Tactic.Lemma

/-!
# Sets and maps as finite sets

The ascending lists behind `IdSet` and `SortedMap` read as `Finset`s.  An ascending list repeats
nothing, so the sizes that the library computes are cardinalities: `IdSet.card_toFinset` and
`SortedMap.card_keySet`.

There is one ascending list of given elements, so maps with the same look-ups are the same:
`SortedMap.eq_of_lookup`.
-/

namespace BenchCover

namespace IdSet

/-- The members of a set. -/
def toFinset (s : IdSet) : Finset FunctionId :=
  s.toList.toFinset

@[simp] lemma mem_toFinset {s : IdSet} {id : FunctionId} : id ∈ s.toFinset ↔ id ∈ s := by
  simp [toFinset, mem_def]

lemma card_toFinset (s : IdSet) : s.toFinset.card = s.size :=
  List.toFinset_card_of_nodup (s.sorted.imp fun {_ _} hlt => ne_of_lt hlt)

lemma toFinset_insert (s : IdSet) (id : FunctionId) :
    (s.insert id).toFinset = Insert.insert id s.toFinset := by
  ext other
  simp

lemma toFinset_diff (a b : IdSet) : (a.diff b).toFinset = a.toFinset \ b.toFinset := by
  ext id
  simp

lemma isEmpty_iff {s : IdSet} : s.isEmpty = true ↔ s.toFinset = ∅ := by
  rw [isEmpty, List.isEmpty_iff, toFinset, List.toFinset_eq_empty_iff]

end IdSet

namespace SortedMap

variable {κ α : Type} [LT κ] [KeyOrder κ] [DecidableEq κ]

/-- The keys of a map. -/
def keySet (m : SortedMap κ α) : Finset κ :=
  m.keys.toFinset

omit [KeyOrder κ] in
@[simp] lemma mem_keySet {m : SortedMap κ α} {key : κ} : key ∈ m.keySet ↔ key ∈ m.keys := by
  simp [keySet]

lemma card_keySet (m : SortedMap κ α) : m.keySet.card = m.size := by
  rw [keySet, List.toFinset_card_of_nodup m.keys_nodup, keys, List.length_map, size]

/-- A map whose keys are keys of another one is not larger. -/
lemma size_le_size {β : Type} {m : SortedMap κ α} {n : SortedMap κ β}
    (h : ∀ key ∈ m.keys, key ∈ n.keys) : m.size ≤ n.size := by
  rw [← card_keySet, ← card_keySet]
  exact Finset.card_le_card fun key hkey => mem_keySet.2 (h key (mem_keySet.1 hkey))

lemma lookup_filter_eq_some_iff {m : SortedMap κ α} {p : κ → α → Bool} {key : κ} {a : α} :
    (m.filter p).lookup key = some a ↔ m.lookup key = some a ∧ p key a = true := by
  simp only [lookup_eq_some_iff, filter, List.mem_filter]

/-- **An entry under a new key** is there besides the others. -/
lemma perm_insert [DecidableLT κ] {m : SortedMap κ α} {key : κ} (hnew : key ∉ m.keys) (a : α) :
    (m.insert key a).entries.Perm ((key, a) :: m.entries) := by
  have hentry : ∀ b, (key, b) ∉ m.entries := fun b hb => hnew (List.mem_map_of_mem hb)
  have hnodup : ((key, a) :: m.entries).Nodup :=
    List.nodup_cons.2 ⟨hentry a, .of_map _ m.keys_nodup⟩
  refine (List.perm_ext_iff_of_nodup (.of_map _ (m.insert key a).keys_nodup) hnodup).2 ?_
  rintro ⟨other, b⟩
  rw [← lookup_eq_some_iff, lookup_insert, List.mem_cons, Prod.mk.injEq]
  split_ifs with hsame
  · subst hsame
    simp [hentry b, eq_comm]
  · simp [Ne.symm hsame, lookup_eq_some_iff]

/-! ## Equality -/

section Equality

variable {m n : SortedMap κ α}

omit [DecidableEq κ] in
lemma eq_of_mem_entries (h : ∀ entry, entry ∈ m.entries ↔ entry ∈ n.entries) : m = n := by
  have : Std.Irrefl fun a b : κ × α => a.1 < b.1 := ⟨fun a => KeyOrder.irrefl a.1⟩
  have : Std.Antisymm fun a b : κ × α => a.1 < b.1 :=
    ⟨fun a _ hab hba => absurd (KeyOrder.trans hab hba) (KeyOrder.irrefl a.1)⟩
  exact SortedMap.ext (m.sorted.eq_of_mem_iff n.sorted h)

/-- **Maps with the same look-ups are the same.** -/
theorem eq_of_lookup (h : ∀ key, m.lookup key = n.lookup key) : m = n :=
  eq_of_mem_entries fun (key, a) => by
    rw [← lookup_eq_some_iff, h, lookup_eq_some_iff]

omit [DecidableEq κ] in
lemma keys_eq_of_mem (h : ∀ key, key ∈ m.keys ↔ key ∈ n.keys) : m.keys = n.keys := by
  have : Std.Irrefl fun a b : κ => a < b := ⟨fun a => KeyOrder.irrefl a⟩
  have : Std.Antisymm fun a b : κ => a < b :=
    ⟨fun a _ hab hba => absurd (KeyOrder.trans hab hba) (KeyOrder.irrefl a)⟩
  exact (List.pairwise_map.2 m.sorted).eq_of_mem_iff (List.pairwise_map.2 n.sorted) h

/-- **Entries in the order of the keys** are told by the look-ups. -/
lemma map_entries_congr {β γ : Type} {f : κ × α → γ} {n : SortedMap κ β} {f' : κ × β → γ}
    (hkeys : m.keys = n.keys)
    (h : ∀ key a b, m.lookup key = some a → n.lookup key = some b → f (key, a) = f' (key, b)) :
    m.entries.map f = n.entries.map f' := by
  have hlengths : m.entries.length = n.entries.length := by
    simpa [keys] using congrArg List.length hkeys
  refine List.ext_getElem (by simpa using hlengths) fun i hi hi' => ?_
  have hm : i < m.entries.length := by simpa using hi
  have hn : i < n.entries.length := by simpa using hi'
  have hkey : m.entries[i].1 = n.entries[i].1 := by
    simpa [keys, hm, hn] using congrArg (·[i]?) hkeys
  rw [List.getElem_map, List.getElem_map]
  refine (h m.entries[i].1 m.entries[i].2 n.entries[i].2 ?_ ?_).trans ?_
  · exact lookup_eq_some_iff.2 (List.getElem_mem hm)
  · rw [hkey]
    exact lookup_eq_some_iff.2 (List.getElem_mem hn)
  · rw [hkey]

end Equality

end SortedMap

end BenchCover
