import BenchCover.Proofs.Function.Registry
import Mathlib.Algebra.BigOperators.Group.Finset.Basic
import Mathlib.Data.Finset.Card

/-!
# Sets of ids that are given by names

`registry.Spells ids p` says that `ids` are the ids of the names with the property `p`.  Such sets
are closed under intersection, and the property determines the set (`Spells.unique`).

Two registries may spell the same property with different ids.  `Registry.translate` goes from the
ids of one to those of the other by way of the names: it is one to one on spelled sets, takes the
one set to the other (`Spells.image_translate`), and leaves sums alone whose terms depend on names
only (`Spells.sum_eq`).
-/

namespace BenchCover

namespace Registry

variable {registry registry' : Registry} {ids ids' : Finset FunctionId} {p q : String → Prop}
  {id id' : FunctionId} {name : String}

/-- **The ids of the names that have a property**, all of which are known. -/
structure Spells (registry : Registry) (ids : Finset FunctionId) (p : String → Prop) : Prop where
  mem_iff : ∀ id, id ∈ ids ↔ ∃ name, registry.name id = .ok name ∧ p name
  known : ∀ name, p name → ∃ id, registry.name id = .ok name

namespace Spells

lemma mem_of_name (h : registry.Spells ids p) (hname : registry.name id = .ok name)
    (hp : p name) : id ∈ ids :=
  (h.mem_iff id).2 ⟨name, hname, hp⟩

/-- **The names determine the set.** -/
lemma unique (h : registry.Spells ids p) (h' : registry.Spells ids' p) : ids = ids' := by
  ext id
  rw [h.mem_iff, h'.mem_iff]

lemma congr (h : registry.Spells ids p) (hpq : ∀ name, p name ↔ q name) : registry.Spells ids q := by
  rwa [show q = p from funext fun name => propext (hpq name).symm]

lemma inter (h : registry.Spells ids p) (h' : registry.Spells ids' q) :
    registry.Spells (ids ∩ ids') fun name => p name ∧ q name where
  mem_iff := by
    intro id
    rw [Finset.mem_inter, h.mem_iff, h'.mem_iff]
    constructor
    · rintro ⟨⟨name, hname, hp⟩, other, hother, hq⟩
      obtain rfl : name = other := Except.ok.inj (hname.symm.trans hother)
      exact ⟨name, hname, hp, hq⟩
    · rintro ⟨name, hname, hp, hq⟩
      exact ⟨⟨name, hname, hp⟩, name, hname, hq⟩
  known := fun name hname => h.known name hname.1

lemma mem_iff_of_name (h : registry.Spells ids p) (hname : registry.name id = .ok name) :
    id ∈ ids ↔ p name := by
  rw [h.mem_iff]
  constructor
  · rintro ⟨other, hother, hp⟩
    obtain rfl : name = other := Except.ok.inj (hname.symm.trans hother)
    exact hp
  · exact fun hp => ⟨name, hname, hp⟩

lemma sdiff (h : registry.Spells ids p) (h' : registry.Spells ids' q) :
    registry.Spells (ids \ ids') fun name => p name ∧ ¬ q name where
  mem_iff := by
    intro id
    rw [Finset.mem_sdiff, h.mem_iff]
    constructor
    · rintro ⟨⟨name, hname, hp⟩, hnot⟩
      exact ⟨name, hname, hp, fun hq => hnot (h'.mem_of_name hname hq)⟩
    · rintro ⟨name, hname, hp, hnot⟩
      exact ⟨⟨name, hname, hp⟩, fun hid => hnot ((h'.mem_iff_of_name hname).1 hid)⟩
  known := fun name hname => h.known name hname.1

end Spells

/-! ## Two registries -/

/-- The id that another registry has for the name of an id. -/
def translate (registry registry' : Registry) (id : FunctionId) : FunctionId :=
  match registry.name id with
  | .ok name => (registry'.lookup? name).getD id
  | .error _ => id

lemma translate_eq (h : registry.name id = .ok name) (h' : registry'.name id' = .ok name) :
    registry.translate registry' id = id' := by
  rw [translate, h]
  simp only [lookup?_of_name h', Option.getD_some]

lemma name_translate (h : registry.name id = .ok name)
    (hknown : ∃ id', registry'.name id' = .ok name) :
    registry'.name (registry.translate registry' id) = .ok name := by
  obtain ⟨id', hid'⟩ := hknown
  rw [translate_eq h hid', hid']

/-- Ids whose names the other registry knows are translated one to one. -/
lemma translate_inj {name' : String} (h : registry.name id = .ok name)
    (h' : registry.name id' = .ok name') (hknown : ∃ i, registry'.name i = .ok name)
    (hknown' : ∃ i, registry'.name i = .ok name')
    (hsame : registry.translate registry' id = registry.translate registry' id') : id = id' := by
  have hname := name_translate h hknown
  rw [hsame, name_translate h' hknown'] at hname
  exact id_unique h (hname ▸ h')

namespace Spells

/-- **The set of the same names** is the translated one. -/
lemma image_translate (h : registry.Spells ids p) (h' : registry'.Spells ids' p) :
    ids' = ids.image (registry.translate registry') := by
  ext id'
  rw [Finset.mem_image, h'.mem_iff]
  constructor
  · rintro ⟨name, hname', hp⟩
    obtain ⟨id, hname⟩ := h.known name hp
    exact ⟨id, h.mem_of_name hname hp, translate_eq hname hname'⟩
  · rintro ⟨id, hid, rfl⟩
    obtain ⟨name, hname, hp⟩ := (h.mem_iff id).1 hid
    exact ⟨name, name_translate hname (h'.known name hp), hp⟩

/-- Sets of names that have the same ids in both registries are the same. -/
lemma eq_of_common (h : registry.Spells ids p) (h' : registry'.Spells ids' p)
    (hcommon : ∀ name, p name → ∃ id, registry.name id = .ok name ∧ registry'.name id = .ok name) :
    ids = ids' := by
  ext id
  rw [h.mem_iff, h'.mem_iff]
  constructor
  · rintro ⟨name, hname, hp⟩
    obtain ⟨id', hid, hid'⟩ := hcommon name hp
    obtain rfl := id_unique hname hid
    exact ⟨name, hid', hp⟩
  · rintro ⟨name, hname, hp⟩
    obtain ⟨id', hid, hid'⟩ := hcommon name hp
    obtain rfl := id_unique hname hid'
    exact ⟨name, hid, hp⟩

/-- Translating is one to one on sets of names that both registries know. -/
lemma translate_injOn {ids'' : Finset FunctionId} (h : registry.Spells ids p)
    (h' : registry'.Spells ids' p) (hq : registry.Spells ids'' q)
    (hq' : ∀ name, q name → ∃ id, registry'.name id = .ok name) (hid : id ∈ ids) (hid' : id' ∈ ids'')
    (hsame : registry.translate registry' id = registry.translate registry' id') : id = id' := by
  obtain ⟨name, hname, hp⟩ := (h.mem_iff id).1 hid
  obtain ⟨name', hname', hp'⟩ := (hq.mem_iff id').1 hid'
  exact translate_inj hname hname' (h'.known name hp) (hq' name' hp') hsame

/-- Sums over sets of the same names are the same, if the terms depend on the names only. -/
lemma sum_eq (h : registry.Spells ids p) (h' : registry'.Spells ids' p) {term term' : FunctionId → ℕ}
    (hterm : ∀ id id' name, registry.name id = .ok name → registry'.name id' = .ok name →
      term id = term' id') : ∑ id ∈ ids, term id = ∑ id ∈ ids', term' id := by
  rw [h.image_translate h', Finset.sum_image fun id hid id' hid' hsame =>
    h.translate_injOn h' h h'.known hid hid' hsame]
  refine Finset.sum_congr rfl fun id hid => ?_
  obtain ⟨name, hname, hp⟩ := (h.mem_iff id).1 hid
  exact hterm _ _ name hname (name_translate hname (h'.known name hp))

/-- **Sets of the same names have the same size.** -/
lemma card_eq (h : registry.Spells ids p) (h' : registry'.Spells ids' p) :
    ids.card = ids'.card := by
  rw [Finset.card_eq_sum_ones, Finset.card_eq_sum_ones]
  exact h.sum_eq h' fun _ _ _ _ _ => rfl

end Spells

end Registry

end BenchCover
