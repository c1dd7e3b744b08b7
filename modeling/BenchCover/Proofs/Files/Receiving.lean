import BenchCover.Proofs.Files.Addition
import Mathlib.Data.List.Induction

/-!
# Files that take output

A path takes output if it leads to an ordinary file, or to where one can be made (`FileTree.Receives`).
Where it leads to a directory it is blocked (`FileTree.Blocks`).

**One file.**  Whatever is put at a path that takes output, all paths go on to take output or to be
blocked (`PutsFile.receives`, `PutsFile.blocks`).

**Several files.**  A tree offers output to some paths, of which some may be blocked
(`FileTree.Offers`).  `FileTree.putFiles` replaces the contents of files one after the other.  It leaves
all other places alone (`Offers.get?_putFiles_of_ne`), and each file holds what was last put there
(`Offers.get?_putFiles`).  Putting the same files again changes nothing, not even the order of entries:
`Offers.putFiles_putFiles`.
-/

namespace BenchCover

namespace FileTree

variable {tree tree' : FileTree} {place other : Location} {path path' : String} {bytes : List UInt8}
  {entry entry' : FileEntry}

/-! ## Setting twice -/

lemma setEntry_self {entries : List (Location × FileEntry)}
    (h : getEntry? place entries = some entry) : setEntry place entry entries = entries := by
  induction entries with
  | nil => cases h
  | cons first rest ih =>
    obtain ⟨location, old⟩ := first
    rw [getEntry?_cons] at h
    by_cases hsame : location = place
    · rw [if_pos hsame] at h
      obtain rfl := Option.some.inj h
      rw [setEntry, if_pos hsame, hsame]
    · rw [if_neg hsame] at h
      rw [setEntry, if_neg hsame, ih h]

lemma setEntry_setEntry (place : Location) (entry entry' : FileEntry)
    (entries : List (Location × FileEntry)) :
    setEntry place entry' (setEntry place entry entries) = setEntry place entry' entries := by
  induction entries with
  | nil => simp [setEntry]
  | cons first rest ih =>
    obtain ⟨location, old⟩ := first
    by_cases hsame : location = place
    · simp [setEntry, hsame]
    · simp [setEntry, hsame, ih]

lemma setEntry_comm (hne : other ≠ place) {entries : List (Location × FileEntry)}
    (hthere : getEntry? place entries ≠ none) :
    setEntry place entry (setEntry other entry' entries)
      = setEntry other entry' (setEntry place entry entries) := by
  induction entries with
  | nil => exact absurd rfl hthere
  | cons first rest ih =>
    obtain ⟨location, old⟩ := first
    by_cases hsame : location = place
    · subst hsame
      simp [setEntry, hne.symm]
    · rw [getEntry?_cons, if_neg hsame] at hthere
      by_cases hother : location = other
      · subst hother
        simp [setEntry, hne]
      · simp [setEntry, hsame, hother, ih hthere]

lemma eq_of_entries {tree tree' : FileTree} (hentries : tree.entries = tree'.entries)
    (hworking : tree.workingDirectory = tree'.workingDirectory) : tree = tree' := by
  cases tree
  cases tree'
  cases hentries
  cases hworking
  rfl

/-- Putting what is there changes nothing. -/
lemma set_self (hinside : place ≠ []) (h : tree.get? place = some entry) :
    tree.set place entry = tree := by
  rw [get?, if_neg hinside] at h
  exact eq_of_entries (setEntry_self h) rfl

lemma set_set (tree : FileTree) (place : Location) (entry entry' : FileEntry) :
    (tree.set place entry).set place entry' = tree.set place entry' :=
  eq_of_entries (setEntry_setEntry place entry entry' tree.entries) rfl

/-- What is there may be changed first. -/
lemma set_comm (hinside : place ≠ []) (hne : other ≠ place) (hthere : tree.get? place ≠ none) :
    (tree.set other entry').set place entry = (tree.set place entry).set other entry' := by
  rw [get?, if_neg hinside] at hthere
  exact eq_of_entries (setEntry_comm hne hthere) rfl

/-! ## Paths that take output -/

/-- **A path that takes output**: it leads to an ordinary file, or to where one can be made. -/
structure Receives (tree : FileTree) (path : String) (place : Location) : Prop where
  walk : ∃ target, tree.walk .writing path = .ok target ∧ target.location = place
  free : tree.get? place = none ∨ ∃ before, tree.get? place = some (.file before)

/-- **A path that is blocked**: it leads to a directory. -/
def Blocks (tree : FileTree) (path : String) : Prop :=
  ∃ place, tree.walk .writing path = .ok (.present place .directory)

namespace Receives

lemma unique (h : tree.Receives path place) (h' : tree.Receives path other) : place = other := by
  obtain ⟨target, hwalk, rfl⟩ := h.walk
  obtain ⟨target', hwalk', rfl⟩ := h'.walk
  obtain rfl := Except.ok.inj (hwalk.symm.trans hwalk')
  rfl

lemma not_directory (h : tree.Receives path place) : tree.get? place ≠ some .directory := by
  rcases h.free with hfree | ⟨before, hfree⟩ <;> simp [hfree]

lemma inside (h : tree.Receives path place) : place ≠ [] := by
  rintro rfl
  exact h.not_directory rfl

/-- What a path that takes output leads to. -/
lemma walk_cases (h : tree.Receives path place) :
    (tree.walk .writing path = .ok (.vacant place) ∧ tree.get? place = none) ∨
      ∃ before, tree.walk .writing path = .ok (.present place (.file before)) ∧
        tree.get? place = some (.file before) := by
  obtain ⟨target, hwalk, rfl⟩ := h.walk
  have hfound := (walk_eq_ok_iff.1 hwalk).2.found
  cases target with
  | vacant other => exact Or.inl ⟨hwalk, hfound.1⟩
  | present other entry =>
    have hentry : tree.get? other = some entry := hfound
    rcases h.free with hfree | ⟨before, hfree⟩
    · cases hfree.symm.trans hentry
    · obtain rfl := Option.some.inj (hfree.symm.trans hentry)
      exact Or.inr ⟨before, hwalk, hfree⟩

lemma not_blocks (h : tree.Receives path place) : ¬ tree.Blocks path := by
  rintro ⟨directory, hblocks⟩
  rcases h.walk_cases with ⟨hwalk, -⟩ | ⟨before, hwalk, -⟩ <;> cases hblocks.symm.trans hwalk

lemma putsFile (h : tree.Receives path place) (bytes : List UInt8) :
    PutsFile place bytes tree (tree.set place (.file bytes)) :=
  putsFile_set h.free bytes

/-- **What a file holds is read.** -/
lemma read_eq (h : tree.Receives path place) (hbytes : tree.get? place = some (.file bytes)) :
    tree.read path = .ok bytes := by
  rcases h.walk_cases with ⟨-, hnone⟩ | ⟨before, hwalk, hbefore⟩
  · cases hnone.symm.trans hbytes
  · obtain rfl : before = bytes := by
      cases hbefore.symm.trans hbytes
      rfl
    obtain ⟨hfault, hleads⟩ := walk_eq_ok_iff.1 hwalk
    have hresolve : tree.resolve path = .ok (.present place (.file before)) :=
      walk_eq_ok_iff.2 ⟨hfault, hleads.looking (Nat.le_refl _)⟩
    rw [read, hresolve]
    rfl

end Receives

namespace PutsFile

/-- **Paths go on to take output.** -/
lemma receives (h : PutsFile place bytes tree tree') (hreceives : tree.Receives path other) :
    tree'.Receives path other where
  walk := by
    obtain ⟨target, hwalk, rfl⟩ := hreceives.walk
    exact ⟨_, h.walk_ok hwalk, location_after ..⟩
  free := by
    by_cases hother : other = place
    · exact Or.inr ⟨bytes, hother ▸ h.there⟩
    · rw [h.elsewhere other hother]
      exact hreceives.free

/-- **Paths stay blocked.** -/
lemma blocks (h : PutsFile place bytes tree tree') (hblocks : tree.Blocks path) :
    tree'.Blocks path := by
  obtain ⟨directory, hwalk⟩ := hblocks
  have hafter := h.walk_ok hwalk
  rw [after_present_of_ne (h.ne_of_directory (walk_eq_ok_iff.1 hwalk).2.found)] at hafter
  exact ⟨directory, hafter⟩

end PutsFile

/-! ## Putting files -/

/-- Puts a file where a path leads. -/
def putFile (tree : FileTree) (path : String) (bytes : List UInt8) : FileTree :=
  match tree.walk .writing path with
  | .ok target => tree.set target.location (.file bytes)
  | .error _ => tree

def putFiles (tree : FileTree) (files : List (String × List UInt8)) : FileTree :=
  files.foldl (fun tree file => tree.putFile file.1 file.2) tree

/-- Files are **consistent** if paths that end in the same name get the same bytes. -/
def Consistent (files : List (String × List UInt8)) : Prop :=
  ∀ file ∈ files, ∀ file' ∈ files,
    (Path.parts file.1).getLast? = (Path.parts file'.1).getLast? → file.2 = file'.2

lemma mem_of_mem_takeWhile {blocked : String → Bool} {paths : List String}
    {files : List (String × List UInt8)} (hfiles : ∀ file ∈ files, file.1 ∈ paths) :
    ∀ file ∈ files.takeWhile fun file => !blocked file.1, file.1 ∈ paths ∧ blocked file.1 = false :=
  fun file hfile => ⟨hfiles file (List.takeWhile_subset _ hfile),
    by simpa using List.mem_takeWhile_imp hfile⟩

namespace Receives

lemma putFile_eq (h : tree.Receives path place) (bytes : List UInt8) :
    tree.putFile path bytes = tree.set place (.file bytes) := by
  obtain ⟨target, hwalk, rfl⟩ := h.walk
  rw [putFile, hwalk]

lemma putsFile_putFile (h : tree.Receives path place) (bytes : List UInt8) :
    PutsFile place bytes tree (tree.putFile path bytes) := by
  rw [h.putFile_eq bytes]
  exact h.putsFile bytes

/-- What is put twice holds what was put last. -/
lemma putFile_putFile (h : tree.Receives path place) (first second : List UInt8) :
    (tree.putFile path first).putFile path second = tree.putFile path second := by
  rw [((h.putsFile_putFile first).receives h).putFile_eq, h.putFile_eq, h.putFile_eq, set_set]

/-- **A file that is put twice** holds what was put last, whatever was put elsewhere meanwhile. -/
lemma putFile_putFile_putFile (h : tree.Receives path place) (h' : tree.Receives path' other)
    (hne : other ≠ place) (first second between : List UInt8) :
    ((tree.putFile path first).putFile path' between).putFile path second
      = (tree.putFile path second).putFile path' between := by
  have hfirst := fun bytes => (h.putsFile_putFile bytes).receives h'
  have hlast := ((hfirst first).putsFile_putFile between).receives
    ((h.putsFile_putFile first).receives h)
  rw [hlast.putFile_eq, (hfirst first).putFile_eq, (hfirst second).putFile_eq, h.putFile_eq,
    h.putFile_eq, set_comm h.inside hne, set_set]
  rw [(h.putsFile first).there]
  simp

/-- What is put twice, one beside the other, holds what was put last. -/
lemma putFile_putFile_pair (h : tree.Receives path place) (h' : tree.Receives path' other)
    (hne : other ≠ place) (first first' second second' : List UInt8) :
    (((tree.putFile path first).putFile path' first').putFile path second).putFile path' second'
      = (tree.putFile path second).putFile path' second' := by
  rw [h.putFile_putFile_putFile h' hne, ((h.putsFile_putFile second).receives h').putFile_putFile]

end Receives

/-! ## Offers -/

/-- **A tree that offers output** to some paths, of which some are blocked: each of the others leads to
where a file can be put, and no symbolic link makes one file of paths that end in different names. -/
structure Offers (tree : FileTree) (blocked : String → Bool) (paths : List String) : Prop where
  blocks : ∀ path ∈ paths, blocked path = true → tree.Blocks path
  receives : ∀ path ∈ paths, blocked path = false → ∃ place, tree.Receives path place
  apart : ∀ path ∈ paths, ∀ path' ∈ paths, ∀ place, tree.Receives path place →
    tree.Receives path' place → (Path.parts path).getLast? = (Path.parts path').getLast?

namespace Offers

variable {blocked : String → Bool} {paths : List String} {files : List (String × List UInt8)}

/-- Each path leads somewhere. -/
lemma exists_walk (h : tree.Offers blocked paths) (hpath : path ∈ paths) :
    ∃ target, tree.walk .writing path = .ok target := by
  cases hblocked : blocked path with
  | true =>
    obtain ⟨place, hwalk⟩ := h.blocks path hpath hblocked
    exact ⟨_, hwalk⟩
  | false =>
    obtain ⟨place, ⟨target, hwalk, -⟩, -⟩ := h.receives path hpath hblocked
    exact ⟨target, hwalk⟩

/-- Paths that end in different names lead to different places. -/
lemma ne_of_getLast? (h : tree.Offers blocked paths) (hpath : path ∈ paths) (hpath' : path' ∈ paths)
    (hreceives : tree.Receives path place) (hreceives' : tree.Receives path' other)
    (hne : (Path.parts path).getLast? ≠ (Path.parts path').getLast?) : place ≠ other := by
  rintro rfl
  exact hne (h.apart path hpath path' hpath' place hreceives hreceives')

/-- A path that takes output after a file was put took it before. -/
lemma receives_of_putsFile (h : tree.Offers blocked paths) (hputs : PutsFile place bytes tree tree')
    (hpath : path ∈ paths) (hafter : tree'.Receives path other) : tree.Receives path other := by
  cases hblocked : blocked path with
  | true => exact absurd (hputs.blocks (h.blocks path hpath hblocked)) hafter.not_blocks
  | false =>
    obtain ⟨found, hfound⟩ := h.receives path hpath hblocked
    obtain rfl := (hputs.receives hfound).unique hafter
    exact hfound

/-- **Putting a file** leaves the offers as they are. -/
lemma of_putsFile (h : tree.Offers blocked paths) (hputs : PutsFile place bytes tree tree') :
    tree'.Offers blocked paths where
  blocks path hpath hblocked := hputs.blocks (h.blocks path hpath hblocked)
  receives path hpath hblocked := by
    obtain ⟨found, hfound⟩ := h.receives path hpath hblocked
    exact ⟨found, hputs.receives hfound⟩
  apart path hpath path' hpath' place hafter hafter' :=
    h.apart path hpath path' hpath' place (h.receives_of_putsFile hputs hpath hafter)
      (h.receives_of_putsFile hputs hpath' hafter')

lemma putFile (h : tree.Offers blocked paths) (hpath : path ∈ paths) (hfree : blocked path = false)
    (bytes : List UInt8) : (tree.putFile path bytes).Offers blocked paths := by
  obtain ⟨place, hreceives⟩ := h.receives path hpath hfree
  exact h.of_putsFile (hreceives.putsFile_putFile bytes)

/-! ### Several files -/

variable (h : tree.Offers blocked paths)
  (hfiles : ∀ file ∈ files, file.1 ∈ paths ∧ blocked file.1 = false)

include h hfiles

lemma putFiles : (tree.putFiles files).Offers blocked paths := by
  induction files generalizing tree with
  | nil => exact h
  | cons file rest ih =>
    obtain ⟨⟨hfile, hfree⟩, hrest⟩ := List.forall_mem_cons.1 hfiles
    exact ih (h.putFile hfile hfree file.2) hrest

lemma receives_putFiles (hreceives : tree.Receives path place) :
    (tree.putFiles files).Receives path place := by
  induction files generalizing tree with
  | nil => exact hreceives
  | cons file rest ih =>
    obtain ⟨⟨hfile, hfree⟩, hrest⟩ := List.forall_mem_cons.1 hfiles
    obtain ⟨found, hfound⟩ := h.receives file.1 hfile hfree
    exact ih (h.putFile hfile hfree file.2) hrest
      ((hfound.putsFile_putFile file.2).receives hreceives)

/-- **Paths lead where they led**, but for the places of the files. -/
theorem walk_putFiles_of_ne {access : Access} {target : Target}
    (hok : tree.walk access path = .ok target)
    (hother : ∀ file ∈ files, ∀ place, tree.Receives file.1 place → target.location ≠ place) :
    (tree.putFiles files).walk access path = .ok target := by
  induction files generalizing tree with
  | nil => exact hok
  | cons file rest ih =>
    obtain ⟨⟨hfile, hfree⟩, hrest⟩ := List.forall_mem_cons.1 hfiles
    obtain ⟨hplace, hothers⟩ := List.forall_mem_cons.1 hother
    obtain ⟨place, hreceives⟩ := h.receives file.1 hfile hfree
    have hputs := hreceives.putsFile_putFile file.2
    refine ih (h.putFile hfile hfree file.2) hrest ?_ fun file' hfile' place' hafter => ?_
    · rw [hputs.walk_ok hok, after_of_ne (hplace place hreceives)]
    · exact hothers file' hfile' place' (h.receives_of_putsFile hputs (hrest file' hfile').1 hafter)

/-- **All other places stay as they are.** -/
theorem get?_putFiles_of_ne
    (hother : ∀ file ∈ files, ∀ place, tree.Receives file.1 place → place ≠ other) :
    (tree.putFiles files).get? other = tree.get? other := by
  induction files generalizing tree with
  | nil => rfl
  | cons file rest ih =>
    obtain ⟨⟨hfile, hfree⟩, hrest⟩ := List.forall_mem_cons.1 hfiles
    obtain ⟨hplace, hothers⟩ := List.forall_mem_cons.1 hother
    obtain ⟨place, hreceives⟩ := h.receives file.1 hfile hfree
    have hputs := hreceives.putsFile_putFile file.2
    have hstep := ih (h.putFile hfile hfree file.2) hrest fun file' hfile' place' hafter =>
      hothers file' hfile' place' (h.receives_of_putsFile hputs (hrest file' hfile').1 hafter)
    exact hstep.trans (hputs.elsewhere other (hplace place hreceives).symm)

/-- **Every file holds what was put there.** -/
theorem get?_putFiles (hconsistent : Consistent files) {file : String × List UInt8}
    (hfile : file ∈ files) (hreceives : tree.Receives file.1 place) :
    (tree.putFiles files).get? place = some (.file file.2) := by
  induction files using List.reverseRecOn with
  | nil => simp at hfile
  | append_singleton files last ih =>
    have hearlier : ∀ file ∈ files, file.1 ∈ paths ∧ blocked file.1 = false := fun file hfile =>
      hfiles file (List.mem_append_left _ hfile)
    have hmem : last ∈ files ++ [last] := List.mem_append_right _ (List.mem_singleton_self _)
    obtain ⟨hlast, hfree⟩ := hfiles last hmem
    have hoffers := h.putFiles hearlier
    obtain ⟨place', hreceives'⟩ := hoffers.receives last.1 hlast hfree
    have hputs := hreceives'.putsFile_putFile last.2
    have hthere := h.receives_putFiles hearlier hreceives
    rw [FileTree.putFiles, List.foldl_concat, ← FileTree.putFiles]
    by_cases hsame : place = place'
    · subst hsame
      rw [hputs.there, hconsistent file hfile last hmem
        (hoffers.apart file.1 (hfiles file hfile).1 last.1 hlast place hthere hreceives')]
    · rw [hputs.elsewhere place hsame]
      rcases List.mem_append.1 hfile with hfile | hfile
      · exact ih hearlier (fun file hfile file' hfile' => hconsistent file
          (List.mem_append_left _ hfile) file' (List.mem_append_left _ hfile')) hfile
      · obtain rfl := List.mem_singleton.1 hfile
        exact absurd (hthere.unique hreceives') hsame

end Offers

end FileTree

end BenchCover
