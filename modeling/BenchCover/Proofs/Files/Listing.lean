import BenchCover.Proofs.Files.Addition
import Mathlib.Data.List.Nodup

/-!
# Listing and reading with a file more

A directory lists a name exactly if something is there (`mem_namesAt`).

**One file.**  When a file is put where no link leads, directories stay where they were, and whatever a
directory lists under another name is read as before (`PutsFile.read_join`).

**Side by side.**  Of two trees side by side the second lists the same names and that of its additional
file.  Whatever the first tree lists is read alike in both (`Beside.read_join`), and under its own name
the additional file is read with its own bytes (`Beside.read_new`).
-/

namespace BenchCover

namespace FileTree

variable {tree tree' : FileTree} {place found : Location} {bytes : List UInt8}
  {directory name : String}

/-! ## Names -/

lemma namesAt_eq (tree : FileTree) (place : Location) :
    tree.namesAt place = (tree.entries.map (·.1)).filterMap fun location =>
      if location ≠ [] && location.dropLast = place then location.getLast? else none := by
  rw [List.filterMap_map]
  rfl

lemma eq_concat_of_mem {location : Location}
    (h : name ∈ if location ≠ [] && location.dropLast = place then location.getLast? else none) :
    location = place ++ [name] := by
  rw [Option.mem_def] at h
  split_ifs at h with hplace
  obtain ⟨front, rfl⟩ := List.getLast?_eq_some_iff.1 h
  have hfront : front = place := by simpa using hplace
  rw [hfront]

/-- **A directory lists what is in it.** -/
theorem mem_namesAt : name ∈ tree.namesAt place ↔ tree.get? (place ++ [name]) ≠ none := by
  rw [get?_concat_ne_none_iff, namesAt_eq, List.mem_filterMap]
  constructor
  · rintro ⟨location, hlocation, hname⟩
    exact eq_concat_of_mem hname ▸ hlocation
  · exact fun hplace => ⟨_, hplace, by simp⟩

lemma nodup_namesAt (tree : FileTree) (place : Location) : (tree.namesAt place).Nodup := by
  rw [namesAt_eq]
  exact tree.places_nodup.filterMap fun a b name ha hb =>
    (eq_concat_of_mem ha).trans (eq_concat_of_mem hb).symm

lemma list_of_resolve (hdirectory : tree.resolve directory = .ok (.present found .directory)) :
    tree.list directory = .ok (tree.namesAt found) := by
  rw [list, hdirectory]
  rfl

lemma exists_of_list {names : List String} (hlist : tree.list directory = .ok names) :
    ∃ found, tree.resolve directory = .ok (.present found .directory) ∧
      names = tree.namesAt found := by
  rw [list] at hlist
  cases hresolve : tree.resolve directory with
  | error cause =>
    rw [hresolve] at hlist
    cases hlist
  | ok target =>
    rw [hresolve] at hlist
    cases target with
    | vacant place => cases hlist
    | present place entry =>
      cases entry with
      | directory => exact ⟨place, rfl, (Except.ok.inj hlist).symm⟩
      | _ => cases hlist

/-! ## Trees that hold the same -/

/-- **Trees that hold the same** have the same at every place, in whatever order their entries are. -/
structure HoldsSame (tree tree' : FileTree) : Prop where
  get?_eq : ∀ place, tree'.get? place = tree.get? place
  workingDirectory_eq : tree'.workingDirectory = tree.workingDirectory

namespace HoldsSame

lemma follow_eq (h : HoldsSame tree tree') (access : Access) (links : ℕ) (place : Location)
    (parts : List String) :
    tree'.follow access links place parts = tree.follow access links place parts := by
  fun_induction follow tree access links place parts with
  | case1 links place entry hentry => rw [follow, h.get?_eq, hentry]
  | case2 links place hnone => rw [follow, h.get?_eq, hnone]
  | case3 links place part rest hdirectory => rw [follow, h.get?_eq, if_pos hdirectory]
  | case4 links place part rest hdirectory hblank ih =>
    rw [follow, h.get?_eq, if_neg hdirectory, if_pos hblank, ih]
  | case5 links place rest hdirectory hblank ih =>
    rw [follow, h.get?_eq, if_neg hdirectory, if_neg hblank, if_pos rfl, ih]
  | case6 links place name rest hdirectory hblank hdots fault hfault =>
    rw [follow, h.get?_eq, if_neg hdirectory, if_neg hblank, if_neg hdots, hfault]
  | case7 links place name rest hdirectory hblank hdots hfault hnone hlast =>
    rw [follow, h.get?_eq, if_neg hdirectory, if_neg hblank, if_neg hdots, hfault]
    simp only [h.get?_eq, hnone, hlast, if_true]
  | case8 links place name rest hdirectory hblank hdots hfault hnone hlast =>
    rw [follow, h.get?_eq, if_neg hdirectory, if_neg hblank, if_neg hdots, hfault]
    simp only [h.get?_eq, hnone, if_neg hlast]
  | case9 place name rest hdirectory hblank hdots hfault path hlink =>
    rw [follow, h.get?_eq, if_neg hdirectory, if_neg hblank, if_neg hdots, hfault]
    simp only [h.get?_eq, hlink]
  | case10 place name rest hdirectory hblank hdots hfault path hlink links ih =>
    rw [follow, h.get?_eq, if_neg hdirectory, if_neg hblank, if_neg hdots, hfault]
    simp only [h.get?_eq, hlink, ih]
  | case11 links place name rest hdirectory hblank hdots hfault entry hlink hentry ih =>
    rw [follow, h.get?_eq, if_neg hdirectory, if_neg hblank, if_neg hdots, hfault]
    simp only [h.get?_eq, ih, hentry]

lemma resolve_eq (h : HoldsSame tree tree') (path : String) :
    tree'.resolve path = tree.resolve path := by
  rw [resolve, resolve, walk, walk, h.workingDirectory_eq]
  cases pathFault? path with
  | some fault => rfl
  | none => exact h.follow_eq _ _ _ _

lemma read_eq (h : HoldsSame tree tree') (path : String) : tree'.read path = tree.read path := by
  rw [read, read, h.resolve_eq]

lemma isFile_eq (h : HoldsSame tree tree') (path : String) :
    tree'.isFile path = tree.isFile path := by
  rw [isFile, isFile, h.resolve_eq]

/-- A directory lists the same names, maybe in another order. -/
lemma namesAt_perm (h : HoldsSame tree tree') (place : Location) :
    (tree'.namesAt place).Perm (tree.namesAt place) :=
  (List.perm_ext_iff_of_nodup (nodup_namesAt tree' place) (nodup_namesAt tree place)).2
    fun name => by rw [mem_namesAt, mem_namesAt, h.get?_eq]

lemma list_eq_error_iff (h : HoldsSame tree tree') (path : String) (cause : FileFault) :
    tree'.list path = .error cause ↔ tree.list path = .error cause := by
  rw [list, list, h.resolve_eq]
  cases tree.resolve path with
  | error fault => exact Iff.rfl
  | ok target =>
    cases target with
    | vacant place => exact Iff.rfl
    | present place entry =>
      cases entry with
      | directory => exact iff_of_false (fun hfault => by cases hfault) fun hfault => by cases hfault
      | _ => exact Iff.rfl

end HoldsSame

/-! ## One file -/

namespace PutsFile

lemma resolve_directory (h : PutsFile place bytes tree tree')
    (hdirectory : tree.resolve directory = .ok (.present found .directory)) :
    tree'.resolve directory = .ok (.present found .directory) := by
  have hfound := (walk_eq_ok_iff.1 hdirectory).2.found
  have hresolve := h.walk_ok hdirectory
  rwa [after_present_of_ne (h.ne_of_directory hfound)] at hresolve

/-- The path from the root to a directory is the same in both trees. -/
lemma canonical_directory (h : PutsFile place bytes tree tree') (hgrounded : tree.Grounded)
    (hdirectory : tree.resolve directory = .ok (.present found .directory)) :
    (tree'.canonical directory).toOption = (tree.canonical directory).toOption := by
  rw [canonical, canonical]
  cases hnamed : tree.walk .naming directory with
  | error fault =>
    obtain ⟨fault', hfault'⟩ := h.walk_error hgrounded hnamed
    rw [hfault']
    rfl
  | ok target =>
    have hlooking := (walk_eq_ok_iff.1 hnamed).2.looking (Nat.le_refl _)
    obtain rfl := leads_unique hlooking (walk_eq_ok_iff.1 hdirectory).2
    have hnamed' := h.walk_ok hnamed
    rw [after_present_of_ne (h.ne_of_directory hlooking.found)] at hnamed'
    rw [hnamed']

/-- **What a directory lists under another name** leads to the same target in both trees, or nowhere,
if no link leads to the file. -/
lemma resolve_join (h : PutsFile place bytes tree tree') (hgrounded : tree.Grounded)
    (hnoLink : tree.NoLinkTo place)
    (hdirectory : tree.resolve directory = .ok (.present found .directory))
    (hname : Path.IsName name) (hproper : name ≠ "" ∧ name ≠ "." ∧ name ≠ "..")
    (hlisted : name ∈ tree.namesAt found) (hother : found ++ [name] ≠ place) :
    (∃ target, tree.resolve (Path.join directory name) = .ok target ∧
        tree'.resolve (Path.join directory name) = .ok target) ∨
      ∃ fault fault', tree.resolve (Path.join directory name) = .error fault ∧
        tree'.resolve (Path.join directory name) = .error fault' := by
  cases hresolve : tree.resolve (Path.join directory name) with
  | error fault =>
    obtain ⟨fault', hfault'⟩ := h.walk_error hgrounded hresolve
    exact Or.inr ⟨fault, fault', rfl, hfault'⟩
  | ok target =>
    have htarget : target.location ≠ place := by
      obtain ⟨links, hlinks, hleads⟩ := leads_of_resolve_join hdirectory hname hresolve
      rcases hleads.name_cases hproper with
        ⟨hnone, -⟩ | ⟨entry, -, rfl⟩ | ⟨path, hlink, links', hless, hleads⟩
      · exact absurd hnone (mem_namesAt.1 hlisted)
      · exact hother
      · have hlooking : tree.Leads .looking linkLimit (startOf path found) (Path.parts path)
            target := hleads.looking (Nat.le_trans hless hlinks)
        exact hnoLink _ path target hlink
          (by rw [List.dropLast_concat]; exact follow_eq_ok_iff.2 hlooking)
    have hresolve' := h.walk_ok hresolve
    rw [after_of_ne htarget] at hresolve'
    exact Or.inl ⟨target, rfl, hresolve'⟩

lemma isFile_join (h : PutsFile place bytes tree tree') (hgrounded : tree.Grounded)
    (hnoLink : tree.NoLinkTo place)
    (hdirectory : tree.resolve directory = .ok (.present found .directory))
    (hname : Path.IsName name) (hproper : name ≠ "" ∧ name ≠ "." ∧ name ≠ "..")
    (hlisted : name ∈ tree.namesAt found) (hother : found ++ [name] ≠ place) :
    tree'.isFile (Path.join directory name) = tree.isFile (Path.join directory name) := by
  rcases h.resolve_join hgrounded hnoLink hdirectory hname hproper hlisted hother with
    ⟨target, hresolve, hresolve'⟩ | ⟨fault, fault', hresolve, hresolve'⟩
  · rw [isFile, isFile, hresolve, hresolve']
  · rw [isFile, isFile, hresolve, hresolve']

/-- **What a directory lists under another name** is read alike in both trees. -/
lemma read_join (h : PutsFile place bytes tree tree') (hgrounded : tree.Grounded)
    (hnoLink : tree.NoLinkTo place)
    (hdirectory : tree.resolve directory = .ok (.present found .directory))
    (hname : Path.IsName name) (hproper : name ≠ "" ∧ name ≠ "." ∧ name ≠ "..")
    (hlisted : name ∈ tree.namesAt found) (hother : found ++ [name] ≠ place)
    (hfile : tree.isFile (Path.join directory name) = true) :
    tree'.read (Path.join directory name) = tree.read (Path.join directory name) := by
  rcases h.resolve_join hgrounded hnoLink hdirectory hname hproper hlisted hother with
    ⟨target, hresolve, hresolve'⟩ | ⟨fault, fault', hresolve, -⟩
  · rw [read, read, hresolve, hresolve']
  · rw [isFile, hresolve] at hfile
    cases hfile

end PutsFile

/-! ## Side by side -/

namespace Beside

/-- **The second tree lists the name of its additional file besides.** -/
lemma mem_namesAt_iff (h : Beside place bytes tree tree') :
    name ∈ tree'.namesAt found ↔ name ∈ tree.namesAt found ∨ found ++ [name] = place := by
  rw [mem_namesAt, mem_namesAt]
  by_cases hplace : found ++ [name] = place
  · simp [hplace, h.puts.there]
  · simp [hplace, h.puts.elsewhere _ hplace]

lemma noLinkTo (h : Beside place bytes tree tree') : tree.NoLinkTo place :=
  h.unlinked.noLinkTo h.vacant

/-- The additional file is not listed by the first tree. -/
lemma ne_of_listed (h : Beside place bytes tree tree') (hlisted : name ∈ tree.namesAt found) :
    found ++ [name] ≠ place := by
  rintro rfl
  exact mem_namesAt.1 hlisted h.vacant

lemma isFile_join (h : Beside place bytes tree tree')
    (hdirectory : tree.resolve directory = .ok (.present found .directory))
    (hname : Path.IsName name) (hproper : name ≠ "" ∧ name ≠ "." ∧ name ≠ "..")
    (hlisted : name ∈ tree.namesAt found) :
    tree'.isFile (Path.join directory name) = tree.isFile (Path.join directory name) :=
  h.puts.isFile_join h.grounded h.noLinkTo hdirectory hname hproper hlisted (h.ne_of_listed hlisted)

/-- **What the first tree lists is read alike in both.** -/
lemma read_join (h : Beside place bytes tree tree')
    (hdirectory : tree.resolve directory = .ok (.present found .directory))
    (hname : Path.IsName name) (hproper : name ≠ "" ∧ name ≠ "." ∧ name ≠ "..")
    (hlisted : name ∈ tree.namesAt found) (hfile : tree.isFile (Path.join directory name) = true) :
    tree'.read (Path.join directory name) = tree.read (Path.join directory name) :=
  h.puts.read_join h.grounded h.noLinkTo hdirectory hname hproper hlisted (h.ne_of_listed hlisted)
    hfile

/-- **The additional file is read with its own bytes.** -/
lemma read_new (h : Beside place bytes tree tree')
    (hdirectory : tree.resolve directory = .ok (.present found .directory))
    (hname : Path.IsName name) (hproper : name ≠ "" ∧ name ≠ "." ∧ name ≠ "..")
    (hplace : found ++ [name] = place) (hfile : tree'.isFile (Path.join directory name) = true) :
    tree'.read (Path.join directory name) = .ok bytes := by
  cases hresolve : tree'.resolve (Path.join directory name) with
  | error fault =>
    rw [isFile, hresolve] at hfile
    cases hfile
  | ok target =>
    obtain ⟨links, -, hleads⟩ :=
      leads_of_resolve_join (h.puts.resolve_directory hdirectory) hname hresolve
    have htarget : target = .present place (.file bytes) := by
      rcases hleads.name_cases hproper with
        ⟨hnone, -⟩ | ⟨entry, hentry, hpresent⟩ | ⟨path, hlink, -⟩
      · rw [hplace, h.puts.there] at hnone
        cases hnone
      · rw [hplace, h.puts.there] at hentry
        cases hentry
        rw [hpresent, hplace]
      · rw [hplace, h.puts.there] at hlink
        cases hlink
    rw [read, hresolve, htarget]
    rfl

end Beside

end FileTree

end BenchCover
