/-!
# Maps in key order

A map kept as a list of its entries in strictly ascending order of the keys.  The order is part of
every answer that is read off a map: reports list the micro benchmarks of a suite by name, and
counts are listed by function.

`lookup_upsert` says what looking up a key gives after an entry was changed, and `mem_keys_upsert`
what that does to the keys.
-/

namespace BenchCover

/-- **A strict order that compares any two different keys.** -/
class KeyOrder (κ : Type) [LT κ] : Prop where
  irrefl : ∀ a : κ, ¬ a < a
  trans : ∀ {a b c : κ}, a < b → b < c → a < c
  trichotomous : ∀ a b : κ, a < b ∨ a = b ∨ b < a

/-- Strings are in the order of their code points. -/
instance : KeyOrder String where
  irrefl := String.lt_irrefl
  trans := String.lt_trans
  trichotomous _ _ := Std.lt_trichotomy _ _

/-- Whole numbers are in their usual order. -/
instance : KeyOrder Int where
  irrefl := Int.lt_irrefl
  trans := Int.lt_trans
  trichotomous := Int.lt_trichotomy

/-- So are natural numbers. -/
instance : KeyOrder Nat where
  irrefl := Nat.lt_irrefl
  trans := Nat.lt_trans
  trichotomous := Nat.lt_trichotomy

/-- **A map in key order.** -/
structure SortedMap (κ α : Type) [LT κ] where
  entries : List (κ × α)
  sorted : entries.Pairwise fun a b => a.1 < b.1

namespace SortedMap

variable {κ α β : Type} [LT κ]

/-- The map without entries. -/
def empty : SortedMap κ α := ⟨[], .nil⟩

instance : Inhabited (SortedMap κ α) := ⟨empty⟩

def size (m : SortedMap κ α) : Nat :=
  m.entries.length

/-- The keys, in ascending order. -/
def keys (m : SortedMap κ α) : List κ :=
  m.entries.map (·.1)

/-- The values, in the order of their keys. -/
def values (m : SortedMap κ α) : List α :=
  m.entries.map (·.2)

def lookupEntry [DecidableEq κ] (key : κ) : List (κ × α) → Option α
  | [] => none
  | (k, a) :: rest => if k = key then some a else lookupEntry key rest

def lookup [DecidableEq κ] (m : SortedMap κ α) (key : κ) : Option α :=
  lookupEntry key m.entries

def contains [DecidableEq κ] (m : SortedMap κ α) (key : κ) : Bool :=
  (m.lookup key).isSome

def map (f : κ → α → β) (m : SortedMap κ α) : SortedMap κ β where
  entries := m.entries.map fun (k, a) => (k, f k a)
  sorted := List.pairwise_map.2 (m.sorted.imp id)

def filter (p : κ → α → Bool) (m : SortedMap κ α) : SortedMap κ α where
  entries := m.entries.filter fun (k, a) => p k a
  sorted := m.sorted.filter _

/-! ## Changing one entry -/

section Upsert

variable [DecidableLT κ]

/-- Changes the entry of a key in ascending entries; a key without an entry gets one. -/
def upsertEntry (key : κ) (change : Option α → α) : List (κ × α) → List (κ × α)
  | [] => [(key, change none)]
  | (k, a) :: rest =>
    if key < k then (key, change none) :: (k, a) :: rest
    else if k < key then (k, a) :: upsertEntry key change rest
    else (k, change (some a)) :: rest

theorem mem_keys_upsertEntry {key k : κ} {change : Option α → α} {entries : List (κ × α)}
    (h : k ∈ (upsertEntry key change entries).map (·.1)) :
    k = key ∨ k ∈ entries.map (·.1) := by
  fun_induction upsertEntry key change entries with
  | case1 => simpa using h
  | case2 => simpa using h
  | case3 => simp_all; grind
  | case4 => simp_all

theorem pairwise_upsertEntry [KeyOrder κ] (key : κ) (change : Option α → α)
    {entries : List (κ × α)} (sorted : entries.Pairwise (·.1 < ·.1)) :
    (upsertEntry key change entries).Pairwise (·.1 < ·.1) := by
  fun_induction upsertEntry key change entries with
  | case1 => simp
  | case2 k a rest before =>
    refine List.pairwise_cons.2 ⟨fun entry mem => ?_, sorted⟩
    rcases List.mem_cons.1 mem with rfl | mem
    · exact before
    · exact KeyOrder.trans before (List.rel_of_pairwise_cons sorted mem)
  | case3 k a rest _ after ih =>
    refine List.pairwise_cons.2 ⟨fun entry mem => ?_, ih (List.Pairwise.of_cons sorted)⟩
    rcases mem_keys_upsertEntry (List.mem_map_of_mem (f := (·.1)) mem) with same | mem
    · rw [same]
      exact after
    · obtain ⟨other, mem, same⟩ := List.mem_map.1 mem
      rw [← same]
      exact List.rel_of_pairwise_cons sorted mem
  | case4 k a rest =>
    exact List.pairwise_cons.2
      ⟨fun entry mem => List.rel_of_pairwise_cons sorted mem, List.Pairwise.of_cons sorted⟩

variable [KeyOrder κ]

/-- **The map with the entry of a key changed.**  The change is told the value so far. -/
def upsert (m : SortedMap κ α) (key : κ) (change : Option α → α) : SortedMap κ α where
  entries := upsertEntry key change m.entries
  sorted := pairwise_upsertEntry key change m.sorted

/-- The map with a value for a key, in place of the one it had. -/
def insert (m : SortedMap κ α) (key : κ) (value : α) : SortedMap κ α :=
  m.upsert key fun _ => value

/-- The map of a list of entries, where a later one takes the place of an earlier one. -/
def ofList (entries : List (κ × α)) : SortedMap κ α :=
  entries.foldl (fun m (k, a) => m.insert k a) empty

end Upsert

/-! ## Laws -/

/-- Two maps with the same entries are the same. -/
@[ext] theorem ext {m n : SortedMap κ α} (h : m.entries = n.entries) : m = n := by
  cases m
  cases n
  cases h
  rfl

theorem lookupEntry_upsertEntry [DecidableEq κ] [DecidableLT κ] [KeyOrder κ] (key other : κ)
    (change : Option α → α) {entries : List (κ × α)} (sorted : entries.Pairwise (·.1 < ·.1)) :
    lookupEntry other (upsertEntry key change entries) =
      if key = other then some (change (lookupEntry other entries))
      else lookupEntry other entries := by
  fun_induction upsertEntry key change entries with
  | case1 => simp [lookupEntry]
  | case2 k a rest before =>
    by_cases same : key = other
    · subst same
      have absent : lookupEntry key ((k, a) :: rest) = none := by
        suffices h : ∀ l : List (κ × α), (∀ e ∈ l, key < e.1) → lookupEntry key l = none from
          h _ fun e mem => by
            rcases List.mem_cons.1 mem with rfl | mem
            · exact before
            · exact KeyOrder.trans before (List.rel_of_pairwise_cons sorted mem)
        intro l hl
        induction l with
        | nil => rfl
        | cons e l ih =>
          have ne : e.1 ≠ key := fun h => KeyOrder.irrefl key (h ▸ hl e (by simp))
          simpa [lookupEntry, ne] using ih fun e mem => hl e (by simp [mem])
      rw [absent]
      simp [lookupEntry]
    · simp [lookupEntry, same]
  | case3 k a rest _ after ih =>
    have ne : k ≠ key := fun h => KeyOrder.irrefl key (h ▸ after)
    by_cases same : k = other
    · subst same
      simp [lookupEntry, ne.symm]
    · simpa [lookupEntry, same] using ih (List.Pairwise.of_cons sorted)
  | case4 k a rest notBefore notAfter =>
    have eq : key = k := by
      rcases KeyOrder.trichotomous key k with lt | eq | gt
      · exact absurd lt notBefore
      · exact eq
      · exact absurd gt notAfter
    subst eq
    by_cases same : key = other <;> simp [lookupEntry, same]

/-- **Looking up a key after an entry was changed.** -/
theorem lookup_upsert [DecidableEq κ] [DecidableLT κ] [KeyOrder κ] (m : SortedMap κ α)
    (key other : κ) (change : Option α → α) :
    (m.upsert key change).lookup other =
      if key = other then some (change (m.lookup other)) else m.lookup other :=
  lookupEntry_upsertEntry key other change m.sorted

/-! ## Keys -/

section Keys

omit [LT κ] in
theorem lookupEntry_eq_some_iff [DecidableEq κ] {key : κ} {a : α} {entries : List (κ × α)}
    (hnodup : (entries.map (·.1)).Nodup) :
    lookupEntry key entries = some a ↔ (key, a) ∈ entries := by
  induction entries with
  | nil => simp [lookupEntry]
  | cons entry rest ih =>
    obtain ⟨k, b⟩ := entry
    rw [List.map_cons, List.nodup_cons] at hnodup
    by_cases hkey : k = key
    · subst hkey
      have habsent : (k, a) ∉ rest := fun hmem => hnodup.1 (List.mem_map_of_mem (f := (·.1)) hmem)
      simp [lookupEntry, habsent, eq_comm]
    · have hne : (key, a) ≠ (k, b) := fun h => hkey (congrArg Prod.fst h).symm
      simp [lookupEntry, hkey, hne, ih hnodup.2]

theorem lookup_map [DecidableEq κ] (f : κ → α → β) (m : SortedMap κ α) (key : κ) :
    (m.map f).lookup key = (m.lookup key).map (f key) := by
  unfold lookup map
  simp only
  induction m.entries with
  | nil => rfl
  | cons entry rest ih =>
    obtain ⟨k, a⟩ := entry
    by_cases hkey : k = key
    · subst hkey
      simp [lookupEntry]
    · simp [lookupEntry, hkey, ih]

@[simp] theorem keys_map (f : κ → α → β) (m : SortedMap κ α) : (m.map f).keys = m.keys := by
  simp [keys, map, List.map_map, Function.comp_def]

@[simp] theorem mem_keys_filter {p : κ → α → Bool} {m : SortedMap κ α} {key : κ} :
    key ∈ (m.filter p).keys ↔ ∃ a, (key, a) ∈ m.entries ∧ p key a = true := by
  simp only [keys, filter, List.mem_map, List.mem_filter]
  constructor
  · rintro ⟨⟨k, a⟩, ⟨hmem, hp⟩, rfl⟩
    exact ⟨a, hmem, hp⟩
  · rintro ⟨a, hmem, hp⟩
    exact ⟨(key, a), ⟨hmem, hp⟩, rfl⟩

variable [KeyOrder κ]

/-- No key has two entries. -/
theorem keys_nodup (m : SortedMap κ α) : m.keys.Nodup := by
  have hne : ∀ a b : κ, a < b → a ≠ b := fun a b hab hsame => by
    subst hsame
    exact KeyOrder.irrefl a hab
  exact List.pairwise_map.2 (m.sorted.imp fun {a b} hab => hne a.1 b.1 hab)

/-- **Looking up a key finds its entry.** -/
theorem lookup_eq_some_iff [DecidableEq κ] {m : SortedMap κ α} {key : κ} {a : α} :
    m.lookup key = some a ↔ (key, a) ∈ m.entries :=
  lookupEntry_eq_some_iff m.keys_nodup

theorem mem_keys_iff [DecidableEq κ] {m : SortedMap κ α} {key : κ} :
    key ∈ m.keys ↔ ∃ a, m.lookup key = some a := by
  simp only [lookup_eq_some_iff, keys, List.mem_map]
  constructor
  · rintro ⟨⟨k, a⟩, hmem, rfl⟩
    exact ⟨a, hmem⟩
  · rintro ⟨a, hmem⟩
    exact ⟨(key, a), hmem, rfl⟩

theorem contains_iff [DecidableEq κ] {m : SortedMap κ α} {key : κ} :
    m.contains key = true ↔ key ∈ m.keys := by
  rw [contains, Option.isSome_iff_exists, mem_keys_iff]

variable [DecidableLT κ]

theorem length_upsertEntry_of_not_mem {key : κ} {change : Option α → α}
    {entries : List (κ × α)} (hnew : key ∉ entries.map (·.1)) :
    (upsertEntry key change entries).length = entries.length + 1 := by
  fun_induction upsertEntry key change entries with
  | case1 => rfl
  | case2 => rfl
  | case3 k a rest _ _ ih =>
    rw [List.map_cons, List.mem_cons, not_or] at hnew
    rw [List.length_cons, List.length_cons, ih hnew.2]
  | case4 k a rest hnot hnot' =>
    rcases KeyOrder.trichotomous key k with hlt | heq | hgt
    · exact absurd hlt hnot
    · simp [heq] at hnew
    · exact absurd hgt hnot'

/-- A new key makes a map larger by one. -/
theorem size_insert_of_not_mem {m : SortedMap κ α} {key : κ} {value : α} (hnew : key ∉ m.keys) :
    (m.insert key value).size = m.size + 1 :=
  length_upsertEntry_of_not_mem hnew

variable [DecidableEq κ]

theorem lookup_insert (m : SortedMap κ α) (key other : κ) (value : α) :
    (m.insert key value).lookup other = if key = other then some value else m.lookup other :=
  lookup_upsert m key other _

@[simp] theorem mem_keys_upsert {m : SortedMap κ α} {key other : κ} {change : Option α → α} :
    other ∈ (m.upsert key change).keys ↔ other = key ∨ other ∈ m.keys := by
  rw [mem_keys_iff, mem_keys_iff, lookup_upsert]
  by_cases hsame : key = other
  · simp [hsame]
  · simp [hsame, Ne.symm hsame]

@[simp] theorem mem_keys_insert {m : SortedMap κ α} {key other : κ} {value : α} :
    other ∈ (m.insert key value).keys ↔ other = key ∨ other ∈ m.keys :=
  mem_keys_upsert

/-- Changing entries one after another gives each of their keys a value and takes none away. -/
theorem mem_keys_foldl_upsert {γ : Type} (change : γ → Option α → α) {entries : List (κ × γ)}
    {m : SortedMap κ α} {key : κ} :
    key ∈ (entries.foldl (fun m (k, a) => m.upsert k (change a)) m).keys ↔
      key ∈ m.keys ∨ key ∈ entries.map (·.1) := by
  induction entries generalizing m with
  | nil => simp
  | cons entry rest ih =>
    rw [List.foldl_cons, ih, mem_keys_upsert, List.map_cons, List.mem_cons]
    grind

@[simp] theorem mem_keys_ofList {entries : List (κ × α)} {key : κ} :
    key ∈ (ofList entries).keys ↔ key ∈ entries.map (·.1) := by
  rw [show ofList entries = entries.foldl (fun m (k, a) => m.upsert k fun _ => a) empty from rfl,
    mem_keys_foldl_upsert fun a _ => a]
  simp [keys, empty]

/-- **Entries under new and different keys** leave the old ones alone, and each other. -/
theorem foldl_insert_spec {ρ : Type} {keyOf : ρ → κ} {valueOf : ρ → α} {rs : List ρ}
    {m : SortedMap κ α} (hnodup : (rs.map keyOf).Nodup) (hfresh : ∀ r ∈ rs, keyOf r ∉ m.keys) :
    (rs.foldl (fun m r => m.insert (keyOf r) (valueOf r)) m).size = m.size + rs.length ∧
      ∀ key a, (rs.foldl (fun m r => m.insert (keyOf r) (valueOf r)) m).lookup key = some a ↔
        m.lookup key = some a ∨ ∃ r ∈ rs, keyOf r = key ∧ valueOf r = a := by
  induction rs generalizing m with
  | nil => simp
  | cons r rest ih =>
    rw [List.map_cons, List.nodup_cons] at hnodup
    have hnew : keyOf r ∉ m.keys := hfresh r List.mem_cons_self
    have hrest : ∀ s ∈ rest, keyOf s ∉ (m.insert (keyOf r) (valueOf r)).keys := by
      intro s hs
      rw [mem_keys_insert, not_or]
      exact ⟨fun hsame => hnodup.1 (hsame ▸ List.mem_map_of_mem hs),
        hfresh s (List.mem_cons_of_mem _ hs)⟩
    obtain ⟨hsize, hlookup⟩ := ih hnodup.2 hrest
    refine ⟨?_, fun key a => ?_⟩
    · rw [List.foldl_cons, hsize, size_insert_of_not_mem hnew, List.length_cons]
      omega
    · rw [List.foldl_cons, hlookup, lookup_insert]
      by_cases hsame : keyOf r = key
      · have hold : m.lookup key ≠ some a := fun hold =>
          hnew (hsame ▸ mem_keys_iff.2 ⟨a, hold⟩)
        simp [hsame, hold]
      · simp [hsame]

/-- **A map of entries with different keys** has exactly these. -/
theorem lookup_ofList_iff {entries : List (κ × α)} (hnodup : (entries.map (·.1)).Nodup) {key : κ}
    {a : α} : (ofList entries).lookup key = some a ↔ (key, a) ∈ entries := by
  have hnone : (empty : SortedMap κ α).lookup key ≠ some a := nofun
  have hspec : (entries.foldl (fun m entry => m.insert entry.1 entry.2) empty).lookup key = some a ↔
      (empty : SortedMap κ α).lookup key = some a ∨ ∃ entry ∈ entries, entry.1 = key ∧ entry.2 = a :=
    (foldl_insert_spec hnodup fun _ _ => List.not_mem_nil).2 key a
  rw [ofList, hspec, or_iff_right hnone]
  constructor
  · rintro ⟨entry, hentry, rfl, rfl⟩
    exact hentry
  · exact fun hentry => ⟨_, hentry, rfl, rfl⟩

end Keys

end SortedMap

end BenchCover
