import BenchCover.Graph.Basic
import BenchCover.Proofs.Distinct

/-!
# Growing registries

A registry only ever grows at its end, so an id that was handed out stands for its name from then
on: `Registry.Extends.keeps_name`.  Within one registry an id has at most one name and a name at
most one id (`Registry.id_unique`), and names that are met get the same id exactly if they are the
same when trimmed (`Registry.register_eq_iff`).

A graph is **named by** a registry if each of its functions has the id under which the registry
knows its name.  This is what reading with a registry establishes, and it is kept when the registry
grows.
-/

namespace BenchCover

namespace Registry

variable {registry registry' : Registry} {id id' : FunctionId} {name : String}

/-- An id stands for the name at its place. -/
lemma name_eq_ok_iff :
    registry.name id = .ok name ↔ ∃ n : Nat, id = n ∧ registry.names[n]? = some name := by
  cases id with
  | ofNat n =>
    rw [Registry.name]
    constructor
    · intro h
      cases hname : registry.names[n]? with
      | none => simp [hname] at h
      | some other =>
        rw [hname] at h
        cases h
        exact ⟨n, rfl, hname⟩
    · rintro ⟨m, hm, hname⟩
      obtain rfl : n = m := Int.ofNat.inj hm
      rw [hname]
  | negSucc n =>
    rw [Registry.name]
    refine ⟨fun h => (by cases h), ?_⟩
    rintro ⟨m, hm, -⟩
    cases hm

/-- Known names are trimmed. -/
lemma trimmed_of_name (h : registry.name id = .ok name) : Text.trimmed name = name := by
  obtain ⟨n, -, hname⟩ := name_eq_ok_iff.1 h
  exact registry.trimmed name (List.mem_of_getElem? hname)

lemma lookup?_of_name (h : registry.name id = .ok name) : registry.lookup? name = some id := by
  rw [lookup?_eq_some_iff, trimmed_of_name h, h]

/-- **A name has one id.** -/
lemma id_unique (h : registry.name id = .ok name) (h' : registry.name id' = .ok name) :
    id = id' :=
  Option.some.inj ((lookup?_of_name h).symm.trans (lookup?_of_name h'))

/-- The ids that are known are those below the size. -/
lemma exists_name_iff : (∃ name, registry.name id = .ok name) ↔ 0 ≤ id ∧ id < registry.size := by
  constructor
  · rintro ⟨name, hname⟩
    obtain ⟨n, rfl, hn⟩ := name_eq_ok_iff.1 hname
    exact ⟨Int.natCast_nonneg n, Int.ofNat_lt.2 (List.getElem?_eq_some_iff.1 hn).1⟩
  · rintro ⟨hnonneg, hlt⟩
    obtain ⟨n, rfl⟩ := Int.eq_ofNat_of_zero_le hnonneg
    have hn : n < registry.names.length := Int.ofNat_lt.1 hlt
    exact ⟨registry.names[n], name_eq_ok_iff.2 ⟨n, rfl, List.getElem?_eq_getElem hn⟩⟩

lemma name_of_unknown (hid : ¬ (0 ≤ id ∧ id < registry.size)) :
    registry.name id = .error ⟨id⟩ := by
  cases id with
  | negSucc n => rfl
  | ofNat n =>
    have hnone : registry.names[n]? = none := by
      rw [List.getElem?_eq_none_iff]
      refine Nat.le_of_not_lt fun hlt => hid ?_
      exact ⟨Int.natCast_nonneg n, Int.ofNat_lt.2 hlt⟩
    rw [Registry.name, hnone]

lemma mem_names_iff : name ∈ registry.names ↔ ∃ id, registry.name id = .ok name := by
  rw [List.mem_iff_getElem?]
  constructor
  · rintro ⟨n, hn⟩
    exact ⟨n, name_eq_ok_iff.2 ⟨n, rfl, hn⟩⟩
  · rintro ⟨id, hname⟩
    obtain ⟨n, -, hn⟩ := name_eq_ok_iff.1 hname
    exact ⟨n, hn⟩

lemma isSome_lookup?_iff : (registry.lookup? name).isSome ↔ Text.trimmed name ∈ registry.names := by
  simp [lookup?]

/-! ## Growth -/

/-- A registry that has come out of another one by meeting names. -/
def Extends (registry registry' : Registry) : Prop :=
  registry.names <+: registry'.names

lemma Extends.refl (registry : Registry) : registry.Extends registry :=
  List.prefix_refl _

lemma Extends.trans {registry'' : Registry} (h : registry.Extends registry')
    (h' : registry'.Extends registry'') : registry.Extends registry'' :=
  List.IsPrefix.trans h h'

/-- **Names stay under their ids.** -/
lemma Extends.keeps_name (h : registry.Extends registry') (hname : registry.name id = .ok name) :
    registry'.name id = .ok name := by
  obtain ⟨n, rfl, hn⟩ := name_eq_ok_iff.1 hname
  obtain ⟨later, hlater⟩ := h
  refine name_eq_ok_iff.2 ⟨n, rfl, ?_⟩
  rw [← hlater, List.getElem?_append_left (List.getElem?_eq_some_iff.1 hn).1, hn]

lemma extends_register (registry : Registry) (name : String) :
    registry.Extends (registry.register name).1 := by
  rw [register]
  split
  · exact Extends.refl registry
  · exact List.prefix_append _ _

lemma names_register (registry : Registry) (name : String) :
    (registry.register name).1.names
      = if Text.trimmed name ∈ registry.names then registry.names
        else registry.names ++ [Text.trimmed name] := by
  rw [register]
  by_cases hknown : Text.trimmed name ∈ registry.names
  · rw [dif_pos hknown, if_pos hknown]
  · rw [dif_neg hknown, if_neg hknown]

lemma register_of_mem (hknown : Text.trimmed name ∈ registry.names) :
    (registry.register name).1 = registry := by
  rw [register, dif_pos hknown]

/-- A new name gets the next free id. -/
lemma register_of_notMem (hnew : Text.trimmed name ∉ registry.names) :
    (registry.register name).2 = registry.size := by
  rw [register, dif_neg hnew]
  rfl

lemma size_register_of_notMem (hnew : Text.trimmed name ∉ registry.names) :
    (registry.register name).1.size = registry.size + 1 := by
  simp [size, names_register, hnew]

/-- A name that was met is known under the id that it got. -/
lemma name_register (registry : Registry) (name : String) :
    (registry.register name).1.name (registry.register name).2 = .ok (Text.trimmed name) := by
  rw [register]
  split
  case isTrue hknown =>
    obtain ⟨n, hn, hname⟩ := List.getElem_of_mem hknown
    have hplace : registry.names.findIdx (· = Text.trimmed name) = n := by
      rw [← hname]
      exact findIdx_getElem registry.nodup hn
    refine name_eq_ok_iff.2 ⟨n, congrArg Int.ofNat hplace, ?_⟩
    rw [List.getElem?_eq_getElem hn, hname]
  case isFalse =>
    exact name_eq_ok_iff.2 ⟨_, rfl, List.getElem?_concat_length⟩

/-- With a new name, a registry knows what it knew, and the new name under the next free id. -/
lemma name_register_iff {other : String} (hnew : Text.trimmed name ∉ registry.names) :
    (registry.register name).1.name id = .ok other ↔
      registry.name id = .ok other ∨ id = registry.size ∧ Text.trimmed name = other := by
  rw [name_eq_ok_iff, name_eq_ok_iff, names_register, if_neg hnew]
  simp only [getElem?_concat_eq_some_iff]
  constructor
  · rintro ⟨n, rfl, hn | ⟨rfl, hother⟩⟩
    · exact Or.inl ⟨n, rfl, hn⟩
    · exact Or.inr ⟨rfl, hother⟩
  · rintro (⟨n, rfl, hn⟩ | ⟨rfl, hother⟩)
    · exact ⟨n, rfl, Or.inl hn⟩
    · exact ⟨registry.size, rfl, Or.inr ⟨rfl, hother⟩⟩

/-- **Names get the same id exactly if they are the same when trimmed**, however many names are met
between the two. -/
lemma register_eq_iff {first second : String} (h : (registry.register first).1.Extends registry') :
    (registry'.register second).2 = (registry.register first).2 ↔
      Text.trimmed second = Text.trimmed first := by
  have hfirst := h.keeps_name (registry.name_register first)
  have hsecond := registry'.name_register second
  have hfirst' := (extends_register registry' second).keeps_name hfirst
  constructor
  · intro hsame
    rw [hsame] at hsecond
    exact Except.ok.inj (hsecond.symm.trans hfirst')
  · intro hsame
    rw [hsame] at hsecond
    exact id_unique hsecond hfirst'

end Registry

/-! ## Named graphs -/

namespace CallGraph

variable {g : CallGraph} {registry registry' : Registry} {f : Function}

/-- **A graph that was read with a registry**: its functions have the ids of their names. -/
def NamedBy (g : CallGraph) (registry : Registry) : Prop :=
  ∀ f ∈ g.functions, registry.name f.id = .ok f.name

lemma NamedBy.mono (hg : g.NamedBy registry) (hextends : registry.Extends registry') :
    g.NamedBy registry' :=
  fun f hf => hextends.keeps_name (hg f hf)

lemma namedBy_empty (registry : Registry) : empty.NamedBy registry :=
  fun _ hf => absurd hf List.not_mem_nil

end CallGraph

end BenchCover
