import Mathlib.Data.List.Forall2
import Mathlib.Data.List.Induction
import Mathlib.Data.List.Nodup
import Mathlib.Tactic.Lemma
import Mathlib.Tactic.SplitIfs

/-!
# Lists told by their keys

Things with keys arrive one after the other, and a list keeps one of them for each key, in the order
in which the keys came first.  The keys of the list are then `List.eraseDups` of those that arrived
(`eraseDups_concat` is one arrival), and what is kept for a key is a partial function of the key.

* `find?_of_forall₂` — looking up a key finds what is kept for it.
* `filter_of_nodup_map` — at most one thing with a given key is in a list that repeats no key.
-/

namespace BenchCover

variable {α κ : Type}

/-- An entry of a list with one value more. -/
lemma getElem?_concat_eq_some_iff {l : List α} {a b : α} {n : ℕ} :
    (l ++ [a])[n]? = some b ↔ l[n]? = some b ∨ n = l.length ∧ a = b := by
  rcases Nat.lt_trichotomy n l.length with hlt | rfl | hgt
  · simp [List.getElem?_append_left hlt, Nat.ne_of_lt hlt]
  · simp
  · have hnone : (l ++ [a])[n]? = none :=
      List.getElem?_eq_none (by rw [List.length_append]; exact hgt)
    simp [hnone, List.getElem?_eq_none (Nat.le_of_lt hgt), Nat.ne_of_gt hgt]

/-! ## Distinct values -/

section Distinct

variable [BEq α] [LawfulBEq α]

lemma eraseDups_concat (l : List α) (a : α) :
    (l ++ [a]).eraseDups = if a ∈ l.eraseDups then l.eraseDups else l.eraseDups ++ [a] := by
  rw [List.eraseDups_append]
  by_cases ha : a ∈ l
  · simp [List.removeAll, List.mem_eraseDups, ha]
  · simp [List.removeAll, List.mem_eraseDups, ha, List.eraseDups_cons]

lemma nodup_eraseDups (l : List α) : l.eraseDups.Nodup := by
  induction l using List.reverseRecOn with
  | nil => simp
  | append_singleton l a ih =>
    rw [eraseDups_concat]
    split_ifs with ha
    · exact ih
    · exact List.nodup_append.2 ⟨ih, List.nodup_singleton a, by grind⟩

end Distinct

/-! ## Keys -/

lemma exists_mem_of_forall₂ {α β : Type} {r : α → β → Prop} {l : List α} {l' : List β}
    (h : List.Forall₂ r l l') {b : β} (hb : b ∈ l') : ∃ a ∈ l, r a b := by
  induction h with
  | nil => simp at hb
  | @cons first _ _ _ hfirst _ ih =>
    rcases List.mem_cons.1 hb with rfl | hb
    · exact ⟨first, List.mem_cons_self, hfirst⟩
    · obtain ⟨a, ha, hab⟩ := ih hb
      exact ⟨a, List.mem_cons_of_mem _ ha, hab⟩

lemma forall₂_imp_of_notMem {R R' : κ → α → Prop} {keys : List κ} {l : List α} {k : κ}
    (h : List.Forall₂ R keys l) (hnew : k ∉ keys) (himp : ∀ k' a, k' ≠ k → R k' a → R' k' a) :
    List.Forall₂ R' keys l := by
  induction h with
  | nil => exact .nil
  | cons hfirst _ ih =>
    exact .cons (himp _ _ (List.ne_of_not_mem_cons hnew).symm hfirst)
      (ih (List.not_mem_of_not_mem_cons hnew))

variable [DecidableEq κ] {key : α → κ}

/-- **Looking up a key** finds what is kept for it. -/
lemma find?_of_forall₂ {keys : List κ} {l : List α} {value? : κ → Option α}
    (h : List.Forall₂ (fun k a => value? k = some a) keys l)
    (hkey : ∀ k a, value? k = some a → key a = k) (hkeys : ∀ k a, value? k = some a → k ∈ keys)
    (k : κ) : l.find? (key · = k) = value? k := by
  have hfind : l.find? (key · = k) = if k ∈ keys then value? k else none := by
    clear hkeys
    induction h with
    | nil => simp
    | @cons k' a keys l ha _ ih =>
      by_cases hsame : k' = k
      · subst hsame
        rw [if_pos List.mem_cons_self, ha, List.find?_cons_of_pos (by simpa using hkey k' a ha)]
      · have hother : key a ≠ k := fun hk => hsame ((hkey k' a ha).symm.trans hk)
        rw [List.find?_cons_of_neg (by simpa using hother), ih]
        simp [Ne.symm hsame]
  rw [hfind]
  split_ifs with hk
  · rfl
  · cases hvalue : value? k with
    | none => rfl
    | some a => exact absurd (hkeys k a hvalue) hk

/-- **At most one** thing with a given key is in a list that repeats no key. -/
lemma filter_of_nodup_map {l : List α} (hnodup : (l.map key).Nodup) (k : κ) :
    l.filter (key · = k) = (l.find? (key · = k)).toList := by
  induction l with
  | nil => rfl
  | cons a l ih =>
    obtain ⟨hnew, hnodup⟩ := List.nodup_cons.1 hnodup
    by_cases hsame : key a = k
    · have hnone : l.filter (key · = k) = [] := by
        rw [List.filter_eq_nil_iff]
        intro b hb
        have hne : key b ≠ key a := fun hk => hnew (hk ▸ List.mem_map_of_mem hb)
        simpa [← hsame] using hne
      simp [hsame, hnone]
    · simp [hsame, ih hnodup]

end BenchCover
