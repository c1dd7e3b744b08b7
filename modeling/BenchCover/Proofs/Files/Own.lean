import BenchCover.Proofs.Files.Receiving

/-!
# Files of their own

Output goes to files that nothing else leads to: an ordinary file is at the place of a path, or
nothing yet, and no symbolic link leads there (`FileTree.OwnFile`).

Whatever is written to such a path, its place stays a place of its own, and so do the places of other
paths (`PutsFile.ownFile`).  A path leads to a place of its own by its last name
(`OwnFile.exists_name`), so that paths which end in different names have different places.  Hence a tree
with files of their own at some paths offers output to all of them (`Ready.offers`), and after all files
have been put it still does (`Ready.putFiles`).
-/

namespace BenchCover

/-! ## Parts of paths -/

lemma Path.isName_of_mem_parts {path name : String} (h : name ∈ parts path) : IsName name := by
  obtain ⟨piece, hpiece, rfl⟩ := List.mem_map.1 h
  rw [IsName, String.toList_ofList]
  exact Text.notMem_of_mem_split '/' _ piece hpiece

namespace FileTree

variable {tree tree' : FileTree} {place other : Location} {path : String} {bytes : List UInt8}

/-! ## Places of their own -/

/-- **A path to a file of its own**: it leads to an ordinary file, or to where one can be made, and
no symbolic link does. -/
structure OwnFile (tree : FileTree) (path : String) (place : Location) : Prop where
  walk : ∃ target, tree.walk .writing path = .ok target ∧ target.location = place
  free : tree.get? place = none ∨ ∃ before, tree.get? place = some (.file before)
  noLink : tree.NoLinkTo place

namespace OwnFile

lemma receives (h : tree.OwnFile path place) : tree.Receives path place :=
  ⟨h.walk, h.free⟩

lemma unique (h : tree.OwnFile path place) (h' : tree.OwnFile path other) : place = other :=
  h.receives.unique h'.receives

/-- **The place of a path to a file of its own** has the last name of the path, in a directory. -/
theorem exists_name (h : tree.OwnFile path place) (hgrounded : tree.Grounded) :
    ∃ directory name, place = directory ++ [name] ∧ tree.get? directory = some .directory ∧
      (Path.parts path).getLast? = some name ∧ Path.IsName name := by
  obtain ⟨target, hwalk, rfl⟩ := h.walk
  have hfree := h.receives.not_directory
  have hleads := (walk_eq_ok_iff.1 hwalk).2
  obtain ⟨front, last, hparts⟩ := (Path.parts path).eq_nil_or_concat'.resolve_left
    (Path.parts_ne_nil path)
  have hmem : last ∈ Path.parts path := by simp [hparts]
  have hname := Path.isName_of_mem_parts hmem
  rw [hparts] at hleads ⊢
  obtain ⟨directory, _, -, links, hlinks, hlast⟩ := hleads.of_append (List.cons_ne_nil _ _)
  have hdirectory := hlast.directory
  cases hlast with
  | stay _ _ hhere =>
    cases hhere
    exact absurd hdirectory hfree
  | up _ hhere =>
    cases hhere
    -- the directory above a directory is no file
    have habove : tree.get? directory.dropLast = some .directory := by
      obtain rfl | ⟨above, name, rfl⟩ := directory.eq_nil_or_concat'
      · rfl
      · rw [List.dropLast_concat]
        exact hgrounded above name (by simp [hdirectory])
    exact absurd habove hfree
  | vacant => exact ⟨directory, last, rfl, hdirectory, List.getLast?_concat, hname⟩
  | @link _ _ _ path _ _ _ hlink hleads =>
    rw [List.append_nil] at hleads
    have hlooking : tree.Leads .looking linkLimit (startOf path directory) (Path.parts path)
        target := hleads.looking (by omega)
    exact absurd rfl (h.noLink _ path target hlink
      (by rw [List.dropLast_concat]; exact follow_eq_ok_iff.2 hlooking))
  | into _ _ _ hhere =>
    cases hhere
    exact ⟨directory, last, rfl, hdirectory, List.getLast?_concat, hname⟩

/-- Paths that end in different names lead to different places. -/
lemma ne_of_getLast? {path' : String} (h : tree.OwnFile path place)
    (h' : tree.OwnFile path' other) (hgrounded : tree.Grounded)
    (hne : (Path.parts path).getLast? ≠ (Path.parts path').getLast?) : place ≠ other := by
  rintro rfl
  obtain ⟨directory, name, rfl, -, hname, -⟩ := h.exists_name hgrounded
  obtain ⟨directory', name', hplace, -, hname', -⟩ := h'.exists_name hgrounded
  rw [hname, hname', (List.append_inj' hplace rfl).2 |> List.singleton_inj.1] at hne
  exact hne rfl

end OwnFile

namespace PutsFile

/-- Putting a file somewhere makes no link lead to another place. -/
lemma noLinkTo (h : PutsFile place bytes tree tree') (hgrounded : tree.Grounded)
    (hnoLink : tree.NoLinkTo other) : tree'.NoLinkTo other := by
  intro location path target hlink hfollow
  have hplace : location ≠ place := by
    rintro rfl
    rw [h.there] at hlink
    cases hlink
  rw [h.elsewhere location hplace] at hlink
  have hleads := follow_eq_ok_iff.1 hfollow
  obtain ⟨before, hbefore⟩ := h.exists_leads hgrounded (Or.inl (Path.parts_ne_nil path)) hleads
  obtain rfl := leads_unique (h.leads hbefore) hleads
  rw [location_after]
  exact hnoLink location path before hlink (follow_eq_ok_iff.2 hbefore)

/-- **Places of their own stay so.** -/
theorem ownFile (h : PutsFile place bytes tree tree') (hgrounded : tree.Grounded)
    (hown : tree.OwnFile path other) : tree'.OwnFile path other where
  walk := (h.receives hown.receives).walk
  free := (h.receives hown.receives).free
  noLink := h.noLinkTo hgrounded hown.noLink

/-- A tree stays proper when a file is put into a directory under a name. -/
lemma proper (h : PutsFile place bytes tree tree') (hproper : tree.Proper)
    (hplace : ∃ directory name, place = directory ++ [name] ∧
      tree.get? directory = some .directory ∧ Path.IsName name) : tree'.Proper := by
  obtain ⟨directory, name, rfl, hdirectory, hname⟩ := hplace
  constructor
  · refine h.grounded hproper.grounded fun directory' name' hsame => ?_
    obtain ⟨rfl, -⟩ := List.append_inj' hsame rfl
    exact hdirectory
  · intro location name' hsome
    by_cases hsame : location ++ [name'] = directory ++ [name]
    · rw [List.singleton_inj.1 (List.append_inj' hsame rfl).2]
      exact hname
    · rw [h.elsewhere _ hsame] at hsome
      exact hproper.isName location name' hsome

end PutsFile

/-! ## Putting files -/

/-- **A tree that is ready for output** to some paths: each of them leads to a file of its own. -/
structure Ready (tree : FileTree) (paths : List String) : Prop where
  proper : tree.Proper
  own : ∀ path ∈ paths, ∃ place, tree.OwnFile path place

namespace Ready

variable {paths : List String} {files : List (String × List UInt8)}

/-- **A tree that is ready for output** offers it to all paths. -/
lemma offers (h : tree.Ready paths) : tree.Offers (fun _ => false) paths where
  blocks _ _ hblocked := by cases hblocked
  receives path hpath _ := by
    obtain ⟨place, hown⟩ := h.own path hpath
    exact ⟨place, hown.receives⟩
  apart path hpath path' hpath' place hreceives hreceives' := by
    obtain ⟨other, hown⟩ := h.own path hpath
    obtain ⟨other', hown'⟩ := h.own path' hpath'
    obtain rfl := hown.receives.unique hreceives
    obtain rfl := hown'.receives.unique hreceives'
    by_contra hne
    exact hown.ne_of_getLast? hown' h.proper.grounded hne rfl

/-- **One file is put.** -/
lemma exists_putFile (h : tree.Ready paths) (hpath : path ∈ paths) (bytes : List UInt8) :
    ∃ place, tree.OwnFile path place ∧ PutsFile place bytes tree (tree.putFile path bytes) ∧
      (tree.putFile path bytes).Ready paths := by
  obtain ⟨place, hown⟩ := h.own path hpath
  have hputs := hown.receives.putsFile_putFile bytes
  obtain ⟨directory, name, hplace, hdirectory, -, hname⟩ := hown.exists_name h.proper.grounded
  refine ⟨place, hown, hputs, hputs.proper h.proper ⟨directory, name, hplace, hdirectory, hname⟩,
    fun path' hpath' => ?_⟩
  obtain ⟨place', hown'⟩ := h.own path' hpath'
  exact ⟨place', hputs.ownFile h.proper.grounded hown'⟩

lemma putFiles (h : tree.Ready paths) (hfiles : ∀ file ∈ files, file.1 ∈ paths) :
    (tree.putFiles files).Ready paths := by
  induction files generalizing tree with
  | nil => exact h
  | cons file rest ih =>
    obtain ⟨hfile, hrest⟩ := List.forall_mem_cons.1 hfiles
    obtain ⟨-, -, -, hready⟩ := h.exists_putFile hfile file.2
    exact ih hready hrest

end Ready

end FileTree

end BenchCover
