import BenchCover.Files.Resolve
import BenchCover.Proofs.Files.Path

/-!
# Where paths lead

`FileTree.Leads` tells step by step how a path leads to a target, and `follow_eq_ok_iff` that this is
what `FileTree.follow` finds.  Inductions on how a path leads somewhere have one case for each kind
of step, and none for faults.

* What is found is in the tree, and a vacant place lies in a directory (`Leads.found`).
* Who looks sees what others see, and more links do no harm (`Leads.looking`).
* Behind a directory a path goes on as from there (`Leads.append`).

A place is **unlinked** if no symbolic link leads there while nothing is there.  Then a path leads to
it only by its name (`Unlinked.getLast?_parts`).
-/

namespace BenchCover

namespace FileTree

/-! ## Proper trees -/

/-- Every entry lies in a directory. -/
def Grounded (tree : FileTree) : Prop :=
  ∀ location name, tree.get? (location ++ [name]) ≠ none → tree.get? location = some .directory

/-- **A tree as file systems have them**: an entry lies in a directory, under a name without
slashes. -/
structure Proper (tree : FileTree) : Prop where
  grounded : tree.Grounded
  isName : ∀ location name, tree.get? (location ++ [name]) ≠ none → Path.IsName name

/-! ### Trees by their entries -/

lemma getEntry?_ne_none_iff {place : Location} {entries : List (Location × FileEntry)} :
    getEntry? place entries ≠ none ↔ place ∈ entries.map (·.1) := by
  induction entries with
  | nil => exact ⟨absurd rfl, fun hmem => absurd hmem List.not_mem_nil⟩
  | cons first rest ih =>
    obtain ⟨location, entry⟩ := first
    by_cases hsame : location = place
    · simp [hsame, getEntry?_cons]
    · simp [hsame, getEntry?_cons, ih, Ne.symm hsame]

lemma mem_entries_of_some {place : Location} {entries : List (Location × FileEntry)}
    {entry : FileEntry} (h : getEntry? place entries = some entry) : (place, entry) ∈ entries := by
  induction entries with
  | nil => cases h
  | cons first rest ih =>
    rw [getEntry?_cons] at h
    split_ifs at h with hsame
    · obtain rfl := Option.some.inj h
      exact hsame ▸ List.mem_cons_self
    · exact List.mem_cons_of_mem _ (ih h)

/-- What is below the root is among the entries. -/
lemma get?_concat_ne_none_iff {tree : FileTree} {location : Location} {name : String} :
    tree.get? (location ++ [name]) ≠ none ↔ location ++ [name] ∈ tree.entries.map (·.1) := by
  rw [get?, if_neg (by simp), getEntry?_ne_none_iff]

/-- **A tree is proper by its entries.** -/
theorem proper_iff {tree : FileTree} :
    tree.Proper ↔ ∀ place ∈ tree.entries.map (·.1), place ≠ [] →
      tree.get? place.dropLast = some .directory ∧
        ∀ name ∈ place.getLast?, Path.IsName name := by
  constructor
  · intro h place hplace hinside
    obtain ⟨location, name, rfl⟩ := (List.eq_nil_or_concat' place).resolve_left hinside
    have hthere := get?_concat_ne_none_iff.2 hplace
    rw [List.dropLast_concat, List.getLast?_concat]
    refine ⟨h.grounded location name hthere, fun other hother => ?_⟩
    obtain rfl := Option.mem_some_iff.1 hother
    exact h.isName location name hthere
  · intro h
    have hentry := fun location name (hthere : tree.get? (location ++ [name]) ≠ none) =>
      h (location ++ [name]) (get?_concat_ne_none_iff.1 hthere) (by simp)
    refine ⟨fun location name hthere => ?_, fun location name hthere => ?_⟩
    · have hdirectory := (hentry location name hthere).1
      rwa [List.dropLast_concat] at hdirectory
    · exact (hentry location name hthere).2 name (by simp)

instance (tree : FileTree) : Decidable tree.Proper :=
  decidable_of_iff _ proper_iff.symm

/-! ## Steps -/

/-- **A name is looked up** in a directory. -/
structure LooksUp (tree : FileTree) (access : Access) (place : Location) (name : String)
    (left : List String) : Prop where
  directory : tree.get? place = some .directory
  proper : name ≠ "" ∧ name ≠ "." ∧ name ≠ ".."
  noFault : nameFault? access place name left = none

/-- **How a path leads to a target**, from a place on and with a number of links at most. -/
inductive Leads (tree : FileTree) (access : Access) :
    (links : Nat) → Location → List String → Target → Prop
  | here {links place entry} : tree.get? place = some entry →
      Leads tree access links place [] (.present place entry)
  | stay {links place part rest target} : tree.get? place = some .directory →
      part = "" ∨ part = "." → Leads tree access links place rest target →
      Leads tree access links place (part :: rest) target
  | up {links place rest target} : tree.get? place = some .directory →
      Leads tree access links place.dropLast rest target →
      Leads tree access links place (".." :: rest) target
  | vacant {links place name} : tree.LooksUp access place name [] →
      tree.get? (place ++ [name]) = none →
      Leads tree access links place [name] (.vacant (place ++ [name]))
  | link {links place name path rest target} : tree.LooksUp access place name rest →
      tree.get? (place ++ [name]) = some (.link path) →
      Leads tree access links (startOf path place) (Path.parts path ++ rest) target →
      Leads tree access (links + 1) place (name :: rest) target
  | into {links place name rest entry target} : tree.LooksUp access place name rest →
      tree.get? (place ++ [name]) = some entry → (∀ path, entry ≠ .link path) →
      Leads tree access links (place ++ [name]) rest target →
      Leads tree access links place (name :: rest) target

variable {tree : FileTree} {access : Access} {links links' : Nat} {place start : Location}
  {parts rest : List String} {target : Target} {name part path : String} {entry : FileEntry}

lemma follow_stay (hdirectory : tree.get? place = some .directory) (hpart : part = "" ∨ part = ".") :
    tree.follow access links place (part :: rest) = tree.follow access links place rest := by
  rw [follow, if_neg (by simp [hdirectory]), if_pos (by simpa using hpart)]

lemma follow_up (hdirectory : tree.get? place = some .directory) :
    tree.follow access links place (".." :: rest)
      = tree.follow access links place.dropLast rest := by
  rw [follow, if_neg (by simp [hdirectory]), if_neg (by decide), if_pos rfl]

/-- A name is followed by what is there. -/
lemma LooksUp.follow_eq (h : tree.LooksUp access place name rest) :
    tree.follow access links place (name :: rest)
      = match tree.get? (place ++ [name]) with
        | none => if rest.isEmpty then .ok (.vacant (place ++ [name])) else .error .noSuchFile
        | some (.link target) => match links with
          | 0 => .error .tooManyLinks
          | links + 1 =>
            tree.follow access links (startOf target place) (Path.parts target ++ rest)
        | some _ => tree.follow access links (place ++ [name]) rest := by
  rewrite [follow, if_neg (by simp [h.directory]), if_neg (by simp [h.proper]),
    if_neg h.proper.2.2, h.noFault]
  rfl

/-- **What a path leads to is what following it finds.** -/
theorem follow_eq_ok_iff :
    tree.follow access links start parts = .ok target ↔
      tree.Leads access links start parts target := by
  constructor
  · intro h
    fun_induction follow tree access links start parts with
    | case1 links start entry hentry =>
      obtain rfl := Except.ok.inj h
      exact .here hentry
    | case2 => cases h
    | case3 => cases h
    | case4 links start part rest hdirectory hblank ih =>
      exact .stay (not_not.1 hdirectory) (by simpa using hblank) (ih h)
    | case5 links start rest hdirectory hblank ih => exact .up (not_not.1 hdirectory) (ih h)
    | case6 => cases h
    | case7 links start name rest hdirectory hblank hdots hfault hnone hlast =>
      obtain rfl := Except.ok.inj h
      obtain rfl := List.isEmpty_iff.1 hlast
      exact .vacant ⟨not_not.1 hdirectory, by simpa [and_assoc, hdots] using hblank, hfault⟩ hnone
    | case8 => cases h
    | case9 => cases h
    | case10 start name rest hdirectory hblank hdots hfault path hlink links ih =>
      exact .link ⟨not_not.1 hdirectory, by simpa [and_assoc, hdots] using hblank, hfault⟩ hlink
        (ih h)
    | case11 links start name rest hdirectory hblank hdots hfault entry hlink hentry ih =>
      exact .into ⟨not_not.1 hdirectory, by simpa [and_assoc, hdots] using hblank, hfault⟩ hentry
        hlink (ih h)
  · intro h
    induction h with
    | here hentry => rw [follow, hentry]
    | stay hdirectory hpart _ ih => rw [follow_stay hdirectory hpart, ih]
    | up hdirectory _ ih => rw [follow_up hdirectory, ih]
    | vacant hlooks hnone =>
      rw [hlooks.follow_eq, hnone]
      rfl
    | link hlooks hlink _ ih =>
      rw [hlooks.follow_eq, hlink]
      exact ih
    | @into _ _ _ _ entry _ hlooks hentry hlink _ ih =>
      rw [hlooks.follow_eq, hentry, ← ih]
      cases entry <;> first | rfl | exact absurd rfl (hlink _)

lemma leads_unique {target' : Target} (h : tree.Leads access links start parts target)
    (h' : tree.Leads access links start parts target') : target = target' :=
  Except.ok.inj ((follow_eq_ok_iff.2 h).symm.trans (follow_eq_ok_iff.2 h'))

/-! ## Targets -/

/-- What a target tells about a tree: what is present is there, and a vacant place is one in a
directory. -/
def Target.FoundIn (tree : FileTree) : Target → Prop
  | .present place entry => tree.get? place = some entry
  | .vacant place => tree.get? place = none ∧
      ∃ directory name, place = directory ++ [name] ∧ tree.get? directory = some .directory

theorem Leads.found (h : tree.Leads access links start parts target) : target.FoundIn tree := by
  induction h with
  | here hentry => exact hentry
  | stay _ _ _ ih => exact ih
  | up _ _ ih => exact ih
  | @vacant _ place name hlooks hnone => exact ⟨hnone, place, name, rfl, hlooks.directory⟩
  | link _ _ _ ih => exact ih
  | into _ _ _ _ ih => exact ih

/-- Parts are followed in directories only. -/
lemma Leads.directory (h : tree.Leads access links place (part :: rest) target) :
    tree.get? place = some .directory := by
  cases h with
  | stay hdirectory _ _ => exact hdirectory
  | up hdirectory _ => exact hdirectory
  | vacant hlooks _ => exact hlooks.directory
  | link hlooks _ _ => exact hlooks.directory
  | into hlooks _ _ _ => exact hlooks.directory

/-! ## Looking -/

lemma nameFault?_of_le {left : List String} (h : name.utf8ByteSize ≤ nameLimit) :
    nameFault? .looking place name left = none := by
  simp [nameFault?, h]

lemma nameFault?_looking {left left' : List String}
    (h : nameFault? access place name left = none) :
    nameFault? .looking place name left' = none := by
  simp only [nameFault?, reduceCtorEq, false_and, if_false] at h ⊢
  split_ifs at h ⊢
  rfl

lemma LooksUp.looking {left left' : List String} (h : tree.LooksUp access place name left) :
    tree.LooksUp .looking place name left' :=
  ⟨h.directory, h.proper, nameFault?_looking h.noFault⟩

/-- **Who looks sees what others see**, and may follow more links. -/
theorem Leads.looking (h : tree.Leads access links start parts target) (hlinks : links ≤ links') :
    tree.Leads .looking links' start parts target := by
  induction h generalizing links' with
  | here hentry => exact .here hentry
  | stay hdirectory hpart _ ih => exact .stay hdirectory hpart (ih hlinks)
  | up hdirectory _ ih => exact .up hdirectory (ih hlinks)
  | vacant hlooks hnone => exact .vacant hlooks.looking hnone
  | link hlooks hlink _ ih =>
    obtain ⟨more, rfl⟩ : ∃ more, links' = more + 1 := Nat.exists_eq_add_one.2 (by omega)
    exact .link hlooks.looking hlink (ih (by omega))
  | into hlooks hentry hlink _ ih => exact .into hlooks.looking hentry hlink (ih hlinks)

/-! ## Paths in two pieces -/

/-- **A path goes on from where its first parts lead.** -/
theorem Leads.of_append {front : List String} (h : tree.Leads access links start (front ++ rest) target)
    (hrest : rest ≠ []) :
    ∃ place entry, tree.Leads .looking links start front (.present place entry) ∧
      ∃ links' ≤ links, tree.Leads access links' place rest target := by
  generalize hparts : front ++ rest = parts at h
  induction h generalizing front with
  | here hentry => exact absurd (List.append_eq_nil_iff.1 hparts).2 hrest
  | @stay links start part parts target hdirectory hpart hleads ih =>
    rcases List.append_eq_cons_iff.1 hparts with ⟨rfl, rfl⟩ | ⟨front', rfl, rfl⟩
    · exact ⟨start, _, .here hdirectory, links, Nat.le_refl _, .stay hdirectory hpart hleads⟩
    · obtain ⟨place, entry, hfront, hlater⟩ := ih rfl
      exact ⟨place, entry, .stay hdirectory hpart hfront, hlater⟩
  | @up links start parts target hdirectory hleads ih =>
    rcases List.append_eq_cons_iff.1 hparts with ⟨rfl, rfl⟩ | ⟨front', rfl, rfl⟩
    · exact ⟨start, _, .here hdirectory, links, Nat.le_refl _, .up hdirectory hleads⟩
    · obtain ⟨place, entry, hfront, hlater⟩ := ih rfl
      exact ⟨place, entry, .up hdirectory hfront, hlater⟩
  | @vacant links start name hlooks hnone =>
    rcases List.append_eq_cons_iff.1 hparts with ⟨rfl, rfl⟩ | ⟨front', rfl, hnil⟩
    · exact ⟨start, _, .here hlooks.directory, links, Nat.le_refl _, .vacant hlooks hnone⟩
    · exact absurd (List.append_eq_nil_iff.1 hnil.symm).2 hrest
  | @link links start name path parts target hlooks hlink hleads ih =>
    rcases List.append_eq_cons_iff.1 hparts with ⟨rfl, rfl⟩ | ⟨front', rfl, rfl⟩
    · exact ⟨start, _, .here hlooks.directory, links + 1, Nat.le_refl _, .link hlooks hlink hleads⟩
    · obtain ⟨place, entry, hfront, links', hlinks, hlater⟩ := ih (List.append_assoc _ _ _)
      exact ⟨place, entry, .link hlooks.looking hlink hfront, links', by omega, hlater⟩
  | @into links start name parts entry target hlooks hentry hlink hleads ih =>
    rcases List.append_eq_cons_iff.1 hparts with ⟨rfl, rfl⟩ | ⟨front', rfl, rfl⟩
    · exact ⟨start, _, .here hlooks.directory, links, Nat.le_refl _, .into hlooks hentry hlink hleads⟩
    · obtain ⟨place, other, hfront, hlater⟩ := ih rfl
      exact ⟨place, other, .into hlooks.looking hentry hlink hfront, hlater⟩

/-- **Where a single name leads**: to its own place, or along the link that is there. -/
lemma Leads.name_cases (h : tree.Leads access links place [name] target)
    (hproper : name ≠ "" ∧ name ≠ "." ∧ name ≠ "..") :
    tree.get? (place ++ [name]) = none ∧ target = .vacant (place ++ [name]) ∨
      (∃ entry, tree.get? (place ++ [name]) = some entry ∧
        target = .present (place ++ [name]) entry) ∨
      ∃ path, tree.get? (place ++ [name]) = some (.link path) ∧
        ∃ links' ≤ links, tree.Leads access links' (startOf path place) (Path.parts path) target := by
  cases h with
  | stay hdirectory hpart _ => exact absurd hpart (by simp [hproper])
  | up => exact absurd rfl hproper.2.2
  | vacant hlooks hnone => exact Or.inl ⟨hnone, rfl⟩
  | link hlooks hlink hleads =>
    rw [List.append_nil] at hleads
    exact Or.inr (Or.inr ⟨_, hlink, _, Nat.le_succ _, hleads⟩)
  | into hlooks hentry hlink hleads =>
    cases hleads with
    | here hhere => exact Or.inr (Or.inl ⟨_, hhere, rfl⟩)

/-! ## Paths into a directory -/

lemma walk_eq_ok_iff : tree.walk access path = .ok target ↔ pathFault? path = none ∧
    tree.Leads access linkLimit (startOf path tree.workingDirectory) (Path.parts path) target := by
  rw [walk]
  cases pathFault? path with
  | some fault => simp
  | none => simp [follow_eq_ok_iff]

/-- **A path of two names** leads through a directory of the root. -/
lemma walk_writing_of_parts {directory : String} (hpath : pathFault? path = none)
    (hparts : Path.parts path = [directory, name]) (hworking : tree.workingDirectory = [])
    (hdirectory : tree.get? [directory] = some .directory)
    (hnames : ∀ part ∈ [directory, name], (part ≠ "" ∧ part ≠ "." ∧ part ≠ "..") ∧
      part.utf8ByteSize ≤ nameLimit)
    (hlast : tree.LooksUp .writing [directory] name [] →
      tree.Leads .writing linkLimit [directory] [name] target) :
    tree.walk .writing path = .ok target := by
  obtain ⟨⟨hproper, hlength⟩, ⟨hproper', hlength'⟩, -⟩ := by
    simpa only [List.forall_mem_cons] using hnames
  have hstart : startOf path tree.workingDirectory = [] := by rw [hworking, startOf, ite_self]
  have hfirst : tree.LooksUp .writing [] directory [name] :=
    ⟨rfl, hproper, by simp [nameFault?, hproper'.1, hlength]⟩
  refine walk_eq_ok_iff.2 ⟨hpath, ?_⟩
  rw [hstart, hparts]
  exact .into hfirst hdirectory nofun (hlast ⟨hdirectory, hproper', by simp [nameFault?, hlength']⟩)

lemma Leads.of_blank (h : tree.Leads access links place [""] target) :
    target = .present place .directory := by
  generalize hpart : "" = part at h
  cases h with
  | stay hdirectory _ hleads =>
    cases hleads with
    | here hentry =>
      obtain rfl := Option.some.inj (hdirectory.symm.trans hentry)
      rfl
  | up => exact absurd hpart (by decide)
  | vacant hlooks => exact absurd hpart.symm hlooks.proper.1
  | link hlooks => exact absurd hpart.symm hlooks.proper.1
  | into hlooks => exact absurd hpart.symm hlooks.proper.1

/-- **A name behind a directory is followed in that directory.** -/
theorem leads_of_resolve_join {directory : String}
    (hdirectory : tree.resolve directory = .ok (.present place .directory))
    (hname : Path.IsName name) (h : tree.resolve (Path.join directory name) = .ok target) :
    ∃ links ≤ linkLimit, tree.Leads .looking links place [name] target := by
  obtain ⟨hfault, hleads⟩ := walk_eq_ok_iff.1 hdirectory
  have hsome : directory ≠ "" := by
    rintro rfl
    exact absurd hfault (by decide)
  obtain ⟨front, hparts, hfront, habsolute⟩ := Path.parts_join hsome name
  have hjoin := (walk_eq_ok_iff.1 h).2
  rw [hparts, Path.parts_of_isName hname, startOf, habsolute, ← startOf] at hjoin
  obtain ⟨found, entry, hfound, links, hlinks, hlast⟩ := hjoin.of_append (List.cons_ne_nil _ _)
  refine ⟨links, hlinks, ?_⟩
  rcases hfront with hfront | hfront
  · rw [hfront] at hleads
    cases leads_unique hfound hleads
    exact hlast
  · -- a slash at the end of the directory leads to the same place
    rw [hfront] at hleads
    obtain ⟨found', _, hfound', _, -, hblank⟩ := hleads.of_append (List.cons_ne_nil _ _)
    cases hblank.of_blank
    cases leads_unique hfound hfound'
    exact hlast

/-! ## Unlinked places -/

def Target.location : Target → Location
  | .present place _ => place
  | .vacant place => place

/-- **No symbolic link leads to the place**, whatever is there. -/
def NoLinkTo (tree : FileTree) (place : Location) : Prop :=
  ∀ location path target, tree.get? location = some (.link path) →
    tree.follow .looking linkLimit (startOf path location.dropLast) (Path.parts path) = .ok target →
    target.location ≠ place

/-- **No symbolic link leads to the place**, where nothing is. -/
def Unlinked (tree : FileTree) (place : Location) : Prop :=
  ∀ location path, tree.get? location = some (.link path) →
    tree.follow .looking linkLimit (startOf path location.dropLast) (Path.parts path)
      ≠ .ok (.vacant place)

lemma not_link_of_entries (h : ∀ entry ∈ tree.entries, ∀ path, entry.2 ≠ .link path)
    (location : Location) (path : String) : tree.get? location ≠ some (.link path) := by
  intro hlink
  rw [get?] at hlink
  split_ifs at hlink
  · cases hlink
  · exact h _ (mem_entries_of_some hlink) path rfl

lemma noLinkTo_of_entries (h : ∀ entry ∈ tree.entries, ∀ path, entry.2 ≠ .link path)
    (place : Location) : tree.NoLinkTo place :=
  fun location path _ hlink => absurd hlink (not_link_of_entries h location path)

lemma unlinked_of_entries (h : ∀ entry ∈ tree.entries, ∀ path, entry.2 ≠ .link path)
    (place : Location) : tree.Unlinked place :=
  fun location path hlink => absurd hlink (not_link_of_entries h location path)

lemma Unlinked.noLinkTo (hunlinked : tree.Unlinked place) (hvacant : tree.get? place = none) :
    tree.NoLinkTo place := by
  rintro location path target hlink hfollow rfl
  cases target with
  | vacant other => exact hunlinked location path hlink hfollow
  | present other entry => cases (follow_eq_ok_iff.1 hfollow).found.symm.trans hvacant

/-- A path leads to an unlinked place by its name. -/
lemma Unlinked.getLast?_parts (hunlinked : tree.Unlinked place)
    (h : tree.Leads access links start parts (.vacant place)) (hlinks : links ≤ linkLimit) :
    parts.getLast? = place.getLast? := by
  obtain rfl | ⟨front, last, rfl⟩ := parts.eq_nil_or_concat'
  · cases h
  obtain ⟨directory, _, -, links', hless, hlast⟩ := h.of_append (List.cons_ne_nil _ _)
  rw [List.getLast?_concat]
  cases hlast with
  | stay _ _ hleads => cases hleads
  | up _ hleads => cases hleads
  | vacant => rw [List.getLast?_concat]
  | @link links' _ _ path _ _ hlooks hlink hleads =>
    rw [List.append_nil] at hleads
    have hlooking : tree.Leads .looking linkLimit (startOf path directory) (Path.parts path)
        (.vacant place) := hleads.looking (by omega)
    exact absurd (follow_eq_ok_iff.2 hlooking) (by simpa using hunlinked _ path hlink)
  | into _ _ _ hleads => cases hleads

end FileTree

end BenchCover
