import BenchCover.Proofs.Files.Own
import BenchCover.Proofs.Suite.LoadAll

/-!
# Loading again after output

Output may go to a directory that suites are loaded from.  It makes no difference to loading: no DOT
file has the name of an output file, and no symbolic link leads to one.

**DOT files.**  Putting a file under another kind of name, where no link leads, leaves a directory with
the same DOT files, and with the same contents (`FileTree.PutsFile.sameDotFiles`).  So does any amount
of output (`FileTree.Ready.sameDotFiles_putFiles`).

**Suites.**  What was loaded is loaded again from the same DOT files
(`Suite.loadAll_of_sameDotFiles`).
-/

namespace BenchCover

open Dot

variable {tree tree' tree'' : FileTree} {place found : Location} {bytes : List UInt8}
  {directory name path : String} {config : RenderConfig} {files : List (String × String)}

/-! ## The same DOT files -/

lemma SameDotFiles.refl (tree : FileTree) (directory : String) :
    SameDotFiles tree tree directory :=
  ⟨rfl, fun _ _ => rfl⟩

lemma SameDotFiles.trans (h : SameDotFiles tree tree' directory)
    (h' : SameDotFiles tree' tree'' directory) : SameDotFiles tree tree'' directory where
  dotFiles_eq := h'.dotFiles_eq.trans h.dotFiles_eq
  read_eq name hdot := by
    cases hfiles : dotFiles tree directory with
    | error cause =>
      obtain ⟨names, hlist, -⟩ := hdot.listed
      obtain ⟨sorted, hsorted, -⟩ := exists_dotFiles hlist
      cases hsorted.symm.trans hfiles
    | ok files =>
      have hdot' : IsDotFile tree' directory name := by
        rw [isDotFile_iff_of_dotFiles (h.dotFiles_eq.trans hfiles)]
        exact (isDotFile_iff_of_dotFiles hfiles).1 hdot
      rw [h'.read_eq name hdot', h.read_eq name hdot]

namespace FileTree

/-- **A file under another kind of name** leaves a directory with the same DOT files. -/
theorem PutsFile.sameDotFiles (h : PutsFile place bytes tree tree') (hproper : tree.Proper)
    (hnoLink : tree.NoLinkTo place)
    (hplace : ∀ name, place.getLast? = some name → ¬ dotExtension.toList <:+ name.toList)
    (hdirectory : tree.resolve directory = .ok (.present found .directory)) :
    SameDotFiles tree tree' directory := by
  have hlist := list_of_resolve hdirectory
  have hlist' := list_of_resolve (h.resolve_directory hdirectory)
  have hother : ∀ name, dotExtension.toList <:+ name.toList → found ++ [name] ≠ place := by
    rintro name hdot rfl
    exact hplace name List.getLast?_concat hdot
  have hlisted : ∀ name, dotExtension.toList <:+ name.toList →
      (name ∈ tree'.namesAt found ↔ name ∈ tree.namesAt found) := fun name hdot => by
    rw [mem_namesAt, mem_namesAt, h.elsewhere _ (hother name hdot)]
  have hdotName : ∀ name : String, dotExtension.toList <:+ name.toList →
      name ≠ "" ∧ name ≠ "." ∧ name ≠ ".." := fun name hdot =>
    proper_of_dotExtension (List.isSuffixOf_iff_suffix.2 hdot)
  have hisName : ∀ name ∈ tree.namesAt found, Path.IsName name := fun name hmem =>
    hproper.isName found name (mem_namesAt.1 hmem)
  have hisFile : ∀ name ∈ tree.namesAt found, dotExtension.toList <:+ name.toList →
      tree'.isFile (Path.join directory name) = tree.isFile (Path.join directory name) :=
    fun name hmem hdot => h.isFile_join hproper.grounded hnoLink hdirectory (hisName name hmem)
      (hdotName name hdot) hmem (hother name hdot)
  constructor
  · refine dotFiles_eq_of_isDotFile_iff hlist hlist' fun name => ?_
    constructor
    · rintro ⟨⟨names, hnames, hmem⟩, hdot, hfile⟩
      obtain rfl := Except.ok.inj (hlist'.symm.trans hnames)
      have hold := (hlisted name hdot).1 hmem
      exact ⟨⟨_, hlist, hold⟩, hdot, hisFile name hold hdot ▸ hfile⟩
    · rintro ⟨⟨names, hnames, hmem⟩, hdot, hfile⟩
      obtain rfl := Except.ok.inj (hlist.symm.trans hnames)
      exact ⟨⟨_, hlist', (hlisted name hdot).2 hmem⟩, hdot, (hisFile name hmem hdot).trans hfile⟩
  · rintro name ⟨⟨names, hnames, hmem⟩, hdot, hfile⟩
    obtain rfl := Except.ok.inj (hlist.symm.trans hnames)
    exact h.read_join hproper.grounded hnoLink hdirectory (hisName name hmem) (hdotName name hdot)
      hmem (hother name hdot) hfile

end FileTree

/-! ## The same suites -/

namespace Suite

variable {microDirectory systemDirectory : String}

/-- A suite is loaded again from the same DOT files.  The micro directory matters only if it is
reached, and then it can be listed. -/
lemma load_of_sameDotFiles (hread : tree'.read path = tree.read path)
    (hmicros : ∀ files, dotFiles tree microDirectory = .ok files →
      SameDotFiles tree tree' microDirectory)
    (hresult : ∀ cause, (load tree path microDirectory config).result ≠ .error (.directory cause)) :
    (load tree' path microDirectory config).result
      = (load tree path microDirectory config).result := by
  cases hdots : dotFiles tree microDirectory with
  | ok files => rw [load_congr hread (hmicros files hdots)]
  | error cause =>
    cases hname : FileName.parse ((Path.finalName? path).getD "") with
    | error fault => rw [load_of_fileName hname, load_of_fileName hname]
    | ok parsed =>
      cases hagrees : parsed.config.agrees config with
      | false => rw [load_of_mismatch hname hagrees, load_of_mismatch hname hagrees]
      | true =>
        cases hgraph : (readDotFile tree path .empty).result with
        | ok g => exact absurd (load_of_directory hname hagrees hgraph hdots) (hresult cause)
        | error fault =>
          have hgraph' : (readDotFile tree' path .empty).result = .error fault := by
            rw [readDotFile_congr hread, hgraph]
          rw [load_of_fault hname hagrees hgraph, load_of_fault hname hagrees hgraph']

lemma loadFiles_of_sameDotFiles {suites : List Suite}
    (hread : ∀ file ∈ files, tree'.read file.2 = tree.read file.2)
    (hmicros : ∀ files, dotFiles tree microDirectory = .ok files →
      SameDotFiles tree tree' microDirectory)
    (hok : (loadFiles tree microDirectory files).result = .ok suites) :
    (loadFiles tree' microDirectory files).result = .ok suites := by
  induction files generalizing suites with
  | nil => exact hok
  | cons file rest ih =>
    obtain ⟨name, path⟩ := file
    obtain ⟨hfile, hrest⟩ := List.forall_mem_cons.1 hread
    cases hname : FileName.parse name with
    | error cause =>
      rw [loadFiles_of_fileName hname] at hok ⊢
      exact ih hrest hok
    | ok parsed =>
      have hload : (∀ cause, (load tree path microDirectory parsed.config).result
          ≠ .error (.directory cause)) → (load tree' path microDirectory parsed.config).result
            = (load tree path microDirectory parsed.config).result :=
        load_of_sameDotFiles hfile hmicros
      cases hresult : (load tree path microDirectory parsed.config).result with
      | ok suite =>
        rw [hresult] at hload
        have hresult' := hload fun _ hfault => by cases hfault
        rw [loadFiles_of_ok hname hresult] at hok
        rw [loadFiles_of_ok hname hresult']
        cases hothers : (loadFiles tree microDirectory rest).result with
        | error cause =>
          rw [hothers] at hok
          cases hok
        | ok others =>
          rw [hothers] at hok
          rw [ih hrest hothers]
          exact hok
      | error fault =>
        by_cases hkind : ∃ cause, fault = .directory cause
        · obtain ⟨cause, rfl⟩ := hkind
          rw [loadFiles_of_directory hname hresult] at hok
          cases hok
        · have hkind : ∀ cause, fault ≠ .directory cause := fun cause hcause =>
            hkind ⟨cause, hcause⟩
          rw [hresult] at hload
          have hresult' := hload fun cause hfault => hkind cause (Except.error.inj hfault)
          rw [loadFiles_of_fault hname hresult hkind] at hok
          rw [loadFiles_of_fault hname hresult' hkind]
          exact ih hrest hok

/-- **What was loaded is loaded again** from the same DOT files. -/
theorem loadAll_of_sameDotFiles {suites : List Suite}
    (hsystem : ∀ files, dotFiles tree systemDirectory = .ok files →
      SameDotFiles tree tree' systemDirectory)
    (hmicros : ∀ files, dotFiles tree microDirectory = .ok files →
      SameDotFiles tree tree' microDirectory)
    (hok : (loadAll tree systemDirectory microDirectory).result = .ok suites) :
    (loadAll tree' systemDirectory microDirectory).result = .ok suites := by
  rw [loadAll] at hok
  cases hfiles : dotFiles tree systemDirectory with
  | error cause =>
    rw [hfiles] at hok
    cases hok
  | ok files =>
    rw [hfiles] at hok
    have hsame := hsystem files hfiles
    rw [loadAll, hsame.dotFiles_eq, hfiles]
    refine loadFiles_of_sameDotFiles (fun file hfile => ?_) hmicros hok
    obtain ⟨names, hlist⟩ := exists_list_of_dotFiles hfiles
    obtain ⟨sorted, hsorted, -⟩ := exists_dotFiles hlist
    obtain rfl := Except.ok.inj (hsorted.symm.trans hfiles)
    obtain ⟨hname, hpath⟩ := mem_filesOf_iff.1 hfile
    rw [hpath]
    refine hsame.read_eq file.1 ((isDotFile_iff_of_dotFiles hfiles).2 ?_)
    exact mem_filesOf_iff.2 ⟨hname, rfl⟩

end Suite

end BenchCover
