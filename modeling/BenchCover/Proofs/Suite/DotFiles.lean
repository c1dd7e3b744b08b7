import BenchCover.Proofs.Dot.Refusal
import BenchCover.Proofs.Suite.PassedOver

/-!
# DOT files and micro benchmarks

**Files.**  A DOT file is read as a graph, or it is refused at a line, or it cannot be read; which of these
it is does not depend on the names that are known already (`readDotFile_cases`).  A directory has its DOT
files in the order of their names (`exists_dotFiles`), whatever the order of its entries is
(`FileTree.HoldsSame.dotFiles_eq`).

**Micro benchmarks.**  A name that tells no configuration or another one and a line that is refused concern
a single file; a file that cannot be read concerns the whole configuration (`loadMicrosFrom_cons`).  So all
micro benchmarks that are read as graphs are kept, unless there is such a file (`loadMicrosFrom_cases`).
-/

namespace BenchCover

open Dot

variable {tree tree' : FileTree} {directory name path : String} {config : RenderConfig}

/-! ## Files -/

/-- **A DOT file of a directory** is a file that is listed there under a name with the extension. -/
structure IsDotFile (tree : FileTree) (directory name : String) : Prop where
  listed : ∃ names, tree.list directory = .ok names ∧ name ∈ names
  extension : dotExtension.toList <:+ name.toList
  isFile : tree.isFile (Path.join directory name) = true

/-- **A file that is read as a graph.** -/
def Parses (tree : FileTree) (path : String) : Prop :=
  ∃ g, (readDotFile tree path .empty).result = .ok g

/-- **A file that cannot be read**, or not further than to some line that is no text. -/
def Unreadable (tree : FileTree) (path : String) : Prop :=
  ∃ file cause, (readDotFile tree path .empty).result = .error (.file file cause)

/-- **What makes a file unreadable**: it cannot be opened, or some line is no text and the lines above it
are accepted. -/
theorem unreadable_iff : Unreadable tree path ↔ (∃ cause, tree.read path = .error cause) ∨
    ∃ bytes, ∃ above : List (List Char), ∃ below, tree.read path = .ok bytes ∧
      Document.ofBytes bytes = above.map some ++ none :: below ∧
      ∃ g, (Document.read path .empty (above.map some)).result = .ok g := by
  rw [Unreadable, readDotFile]
  cases hread : tree.read path with
  | error cause => exact iff_of_true ⟨path, cause, rfl⟩ (Or.inl ⟨cause, rfl⟩)
  | ok bytes =>
    constructor
    · rintro ⟨file, cause, hfault⟩
      obtain ⟨above, rest, hlines, haccepted, hrefused⟩ := Document.exists_above_of_error
        (Reading.sound_start .empty) (Reading.after_start .empty) hfault
      cases hrefused with
      | @notText below => exact Or.inr ⟨bytes, above, below, rfl, hlines, haccepted⟩
    · rintro (⟨cause, hfault⟩ | ⟨_, above, below, ⟨⟩, hlines, g, haccepted⟩)
      · cases hfault
      · obtain ⟨next, hsound, hafter, -, hbelow⟩ := Document.exists_reading_of_ok
          (Reading.sound_start .empty) (Reading.after_start .empty) haccepted
        refine ⟨path, .notText, ?_⟩
        show (Document.read path .empty (Document.ofBytes bytes)).result = _
        rw [hlines, Document.read, hbelow, Document.readFrom, Document.finish]

/-- What becomes of a file does not depend on the names that are known already. -/
lemma readDotFile_cases (tree : FileTree) (path : String) (registry : Registry) :
    (∃ g, (readDotFile tree path registry).result = .ok g ∧ Parses tree path ∧
        ¬ Unreadable tree path) ∨
      (∃ file cause, (readDotFile tree path registry).result = .error (.file file cause) ∧
        ¬ Parses tree path ∧ Unreadable tree path) ∨
      ∃ file number cause,
        (readDotFile tree path registry).result = .error (.line file number cause) ∧
        ¬ Parses tree path ∧ ¬ Unreadable tree path := by
  rw [Parses, Unreadable]
  rcases readDotFile_beside (rfl : tree.read path = tree.read path) .empty registry with
    ⟨g, g', hempty, hregistry, -⟩ | ⟨fault, hempty, hregistry⟩
  · exact Or.inl ⟨g', hregistry, ⟨g, hempty⟩, by simp [hempty]⟩
  · cases fault with
    | file file cause =>
      exact Or.inr (Or.inl ⟨file, cause, hregistry, by simp [hempty], file, cause, hempty⟩)
    | line file number cause =>
      exact Or.inr (Or.inr ⟨file, number, cause, hregistry, by simp [hempty], by simp [hempty]⟩)

/-- The DOT files of a directory under some names. -/
def filesOf (directory : String) (names : List String) : List (String × String) :=
  names.map fun name => (name, Path.join directory name)

lemma mem_filesOf_iff {names : List String} :
    (name, path) ∈ filesOf directory names ↔ name ∈ names ∧ path = Path.join directory name := by
  rw [filesOf, List.mem_map]
  constructor
  · rintro ⟨_, hname, ⟨⟩⟩
    exact ⟨hname, rfl⟩
  · rintro ⟨hname, rfl⟩
    exact ⟨name, hname, rfl⟩

lemma dotFiles_of_error {cause : FileFault} (hlist : tree.list directory = .error cause) :
    dotFiles tree directory = .error ⟨directory, cause⟩ := by
  rw [dotFiles, hlist]

/-- **A directory has its DOT files in the order of their names**, each of them once. -/
lemma exists_dotFiles {names : List String} (hlist : tree.list directory = .ok names) :
    ∃ sorted, dotFiles tree directory = .ok (filesOf directory sorted) ∧
      sorted.Pairwise (· ≤ ·) ∧ sorted.Nodup ∧
      ∀ name, name ∈ sorted ↔ IsDotFile tree directory name := by
  obtain ⟨found, hdirectory, rfl⟩ := FileTree.exists_of_list hlist
  refine ⟨_, by rw [dotFiles, hlist, filesOf], ?_, ?_, fun name => ?_⟩
  · exact (List.pairwise_mergeSort (by simpa using fun a b c => String.le_trans)
      (by simpa using String.le_total) _).imp of_decide_eq_true
  · exact (List.mergeSort_perm _ _).nodup_iff.2 ((tree.nodup_namesAt found).filter _)
  · rw [List.mem_mergeSort, List.mem_filter, Bool.and_eq_true, List.isSuffixOf_iff_suffix]
    constructor
    · rintro ⟨hmem, hdot, hfile⟩
      exact ⟨⟨_, hlist, hmem⟩, hdot, hfile⟩
    · rintro ⟨⟨_, hlist', hmem⟩, hdot, hfile⟩
      obtain rfl := Except.ok.inj (hlist.symm.trans hlist')
      exact ⟨hmem, hdot, hfile⟩

lemma not_isDotFile_of_error {cause : FileFault} (hlist : tree.list directory = .error cause) :
    ¬ IsDotFile tree directory name := by
  rintro ⟨⟨names, hlist', -⟩, -, -⟩
  cases hlist.symm.trans hlist'

/-- Directories with the same names of DOT files have the same DOT files, in the same order. -/
lemma dotFiles_eq_of_isDotFile_iff {names names' : List String}
    (hlist : tree.list directory = .ok names) (hlist' : tree'.list directory = .ok names')
    (h : ∀ name, IsDotFile tree' directory name ↔ IsDotFile tree directory name) :
    dotFiles tree' directory = dotFiles tree directory := by
  obtain ⟨sorted, hfiles, hpairwise, hnodup, hsorted⟩ := exists_dotFiles hlist
  obtain ⟨sorted', hfiles', hpairwise', hnodup', hsorted'⟩ := exists_dotFiles hlist'
  have hperm : sorted'.Perm sorted := (List.perm_ext_iff_of_nodup hnodup' hnodup).2 fun name => by
    rw [hsorted, hsorted', h]
  rw [hfiles, hfiles', hperm.eq_of_pairwise (fun a b _ _ => String.le_antisymm) hpairwise'
    hpairwise]

lemma exists_list_of_dotFiles {files : List (String × String)}
    (hfiles : dotFiles tree directory = .ok files) : ∃ names, tree.list directory = .ok names := by
  cases hlist : tree.list directory with
  | error cause => cases (dotFiles_of_error hlist).symm.trans hfiles
  | ok names => exact ⟨names, rfl⟩

/-- The DOT files of a directory are those that it lists. -/
lemma isDotFile_iff_of_dotFiles {files : List (String × String)}
    (hfiles : dotFiles tree directory = .ok files) :
    IsDotFile tree directory name ↔ (name, Path.join directory name) ∈ files := by
  obtain ⟨names, hlist⟩ := exists_list_of_dotFiles hfiles
  obtain ⟨sorted, hfiles', -, -, hsorted⟩ := exists_dotFiles hlist
  obtain rfl := Except.ok.inj (hfiles'.symm.trans hfiles)
  rw [mem_filesOf_iff, hsorted]
  exact (and_iff_left rfl).symm

/-- The path to a DOT file ends in its name. -/
lemma IsDotFile.finalName_eq (h : IsDotFile tree directory name) (hproper : tree.Proper) :
    (Path.finalName? (Path.join directory name)).getD "" = name := by
  obtain ⟨names, hlist, hmem⟩ := h.listed
  obtain ⟨found, -, rfl⟩ := FileTree.exists_of_list hlist
  have hname := hproper.isName found name (FileTree.mem_namesAt.1 hmem)
  rw [Path.finalName?_join directory hname
    (proper_of_dotExtension (List.isSuffixOf_iff_suffix.2 h.extension)), Option.getD_some]

/-! ## Micro benchmarks -/

/-- **A name that tells a configuration.** -/
def HasConfig (config : RenderConfig) (name : String) : Prop :=
  ∃ parsed, FileName.parse name = .ok parsed ∧ parsed.config.agrees config = true

/-- **One micro benchmark** is passed over, kept, or ends the loading of its configuration. -/
lemma loadMicrosFrom_cons (tree : FileTree) (config : RenderConfig) (micros : Micros)
    (file : String × String) (rest : List (String × String)) :
    (¬ (HasConfig config file.1 ∧ (Parses tree file.2 ∨ Unreadable tree file.2)) ∧
        ∃ registry, (loadMicrosFrom tree config micros (file :: rest)).result
          = (loadMicrosFrom tree config ⟨micros.graphs, registry⟩ rest).result) ∨
      (HasConfig config file.1 ∧ Parses tree file.2 ∧ ¬ Unreadable tree file.2 ∧
        ∃ g registry, (loadMicrosFrom tree config micros (file :: rest)).result
          = (loadMicrosFrom tree config ⟨micros.graphs.insert file.1 g, registry⟩ rest).result) ∨
      (HasConfig config file.1 ∧ Unreadable tree file.2 ∧
        ∃ fault, (loadMicrosFrom tree config micros (file :: rest)).result
          = .error (.document fault)) := by
  obtain ⟨name, path⟩ := file
  cases hname : FileName.parse name with
  | error cause =>
    refine Or.inl ⟨?_, micros.registry, loadMicrosFrom_of_fileName hname⟩
    rintro ⟨⟨parsed, hparsed, -⟩, -⟩
    cases hname.symm.trans hparsed
  | ok parsed =>
    cases hagrees : parsed.config.agrees config with
    | false =>
      refine Or.inl ⟨?_, micros.registry, loadMicrosFrom_of_other hname hagrees⟩
      rintro ⟨⟨parsed', hparsed, hagrees'⟩, -⟩
      obtain rfl := Except.ok.inj (hname.symm.trans hparsed)
      cases hagrees.symm.trans hagrees'
    | true =>
      have hconfig : HasConfig config name := ⟨parsed, hname, hagrees⟩
      rcases readDotFile_cases tree path micros.registry with
        ⟨g, hgraph, hparses, hreadable⟩ | ⟨file, cause, hfault, -, hunreadable⟩ |
        ⟨file, number, cause, hfault, hparses, hreadable⟩
      · exact Or.inr (Or.inl ⟨hconfig, hparses, hreadable, g, _,
          loadMicrosFrom_of_ok hname hagrees hgraph⟩)
      · exact Or.inr (Or.inr ⟨hconfig, hunreadable, _, loadMicrosFrom_of_file hname hagrees hfault⟩)
      · exact Or.inl ⟨fun h => h.2.elim hparses hreadable, _,
          loadMicrosFrom_of_line hname hagrees hfault⟩

/-- **What becomes of the micro benchmarks**: all that can be read as graphs are kept, or one of the
configuration cannot be read. -/
lemma loadMicrosFrom_cases (tree : FileTree) (config : RenderConfig) (micros : Micros)
    (files : List (String × String)) :
    (∃ loaded, (loadMicrosFrom tree config micros files).result = .ok loaded ∧
        (∀ file ∈ files, HasConfig config file.1 → ¬ Unreadable tree file.2) ∧
        ∀ key, key ∈ loaded.graphs.keys ↔ key ∈ micros.graphs.keys ∨
          ∃ file ∈ files, file.1 = key ∧ HasConfig config file.1 ∧ Parses tree file.2) ∨
      ∃ fault, (loadMicrosFrom tree config micros files).result = .error (.document fault) ∧
        ∃ file ∈ files, HasConfig config file.1 ∧ Unreadable tree file.2 := by
  -- a file that is kept changes the micro benchmarks that the others are read after
  induction files generalizing micros with
  | nil => exact Or.inl ⟨micros, rfl, by simp, by simp⟩
  | cons file rest ih =>
    rcases loadMicrosFrom_cons tree config micros file rest with
      ⟨hpassed, registry, hstep⟩ | ⟨hconfig, hparses, hreadable, g, registry, hstep⟩ |
      ⟨hconfig, hunreadable, fault, hfault⟩
    · rcases ih ⟨micros.graphs, registry⟩ with
        ⟨loaded, hloaded, hreadable, hkeys⟩ | ⟨fault, hfault, other, hother, hunreadable⟩
      · refine Or.inl ⟨loaded, hstep.trans hloaded, ?_, fun key => ?_⟩
        · refine List.forall_mem_cons.2 ⟨fun hconfig hunreadable => ?_, hreadable⟩
          exact hpassed ⟨hconfig, Or.inr hunreadable⟩
        · rw [hkeys, List.exists_mem_cons_iff]
          refine or_congr_right (or_iff_right ?_).symm
          exact fun h => hpassed ⟨h.2.1, Or.inl h.2.2⟩
      · exact Or.inr ⟨fault, hstep.trans hfault, other, List.mem_cons_of_mem _ hother, hunreadable⟩
    · rcases ih ⟨micros.graphs.insert file.1 g, registry⟩ with
        ⟨loaded, hloaded, hrest, hkeys⟩ | ⟨fault, hfault, other, hother, hunreadable⟩
      · refine Or.inl ⟨loaded, hstep.trans hloaded, ?_, fun key => ?_⟩
        · exact List.forall_mem_cons.2 ⟨fun _ => hreadable, hrest⟩
        · rw [hkeys, List.exists_mem_cons_iff, SortedMap.mem_keys_insert, or_assoc, or_left_comm]
          refine or_congr_right (or_congr_left ?_)
          exact ⟨fun h => ⟨h.symm, hconfig, hparses⟩, fun h => h.1.symm⟩
      · exact Or.inr ⟨fault, hstep.trans hfault, other, List.mem_cons_of_mem _ hother, hunreadable⟩
    · exact Or.inr ⟨fault, hfault, file, List.mem_cons_self, hconfig, hunreadable⟩

/-! ## Trees that hold the same files -/

/-- **The same DOT files** in a directory of two trees, with the same contents. -/
structure SameDotFiles (tree tree' : FileTree) (directory : String) : Prop where
  dotFiles_eq : dotFiles tree' directory = dotFiles tree directory
  read_eq : ∀ name, IsDotFile tree directory name →
    tree'.read (Path.join directory name) = tree.read (Path.join directory name)

lemma readDotFile_congr (hread : tree'.read path = tree.read path) (registry : Registry) :
    readDotFile tree' path registry = readDotFile tree path registry := by
  rw [readDotFile, readDotFile, hread]

lemma loadMicrosFrom_congr {files : List (String × String)}
    (hread : ∀ file ∈ files, tree'.read file.2 = tree.read file.2) (micros : Micros) :
    loadMicrosFrom tree' config micros files = loadMicrosFrom tree config micros files := by
  induction files generalizing micros with
  | nil => rfl
  | cons file rest ih =>
    obtain ⟨name, path⟩ := file
    have hfile := readDotFile_congr (hread _ List.mem_cons_self)
    have hrest := ih fun other hother => hread other (List.mem_cons_of_mem _ hother)
    simp only [loadMicrosFrom, hfile, hrest]

lemma SameDotFiles.loadMicros_eq (h : SameDotFiles tree tree' directory) (registry : Registry) :
    loadMicros tree' directory config registry = loadMicros tree directory config registry := by
  rw [loadMicros, loadMicros, h.dotFiles_eq]
  cases hlist : tree.list directory with
  | error cause => rw [dotFiles_of_error hlist]
  | ok names =>
    obtain ⟨sorted, hfiles, -, -, hsorted⟩ := exists_dotFiles hlist
    rw [hfiles]
    refine loadMicrosFrom_congr (fun file hfile => ?_) _
    obtain ⟨hname, hpath⟩ := mem_filesOf_iff.1 hfile
    rw [hpath]
    exact h.read_eq file.1 ((hsorted file.1).1 hname)

namespace FileTree.HoldsSame

lemma symm (h : tree.HoldsSame tree') : tree'.HoldsSame tree :=
  ⟨fun place => (h.get?_eq place).symm, h.workingDirectory_eq.symm⟩

lemma isDotFile (h : tree.HoldsSame tree') (hdot : IsDotFile tree directory name) :
    IsDotFile tree' directory name where
  listed := by
    obtain ⟨names, hlist, hmem⟩ := hdot.listed
    obtain ⟨found, hdirectory, rfl⟩ := exists_of_list hlist
    rw [← h.resolve_eq] at hdirectory
    exact ⟨_, list_of_resolve hdirectory, (h.namesAt_perm found).mem_iff.2 hmem⟩
  extension := hdot.extension
  isFile := by
    rw [h.isFile_eq]
    exact hdot.isFile

/-- The DOT files of a directory do not depend on the order of its entries. -/
lemma dotFiles_eq (h : tree.HoldsSame tree') (directory : String) :
    dotFiles tree' directory = dotFiles tree directory := by
  cases hlist : tree.list directory with
  | error cause =>
    rw [dotFiles_of_error hlist, dotFiles_of_error ((h.list_eq_error_iff _ _).2 hlist)]
  | ok names =>
    obtain ⟨found, hdirectory, -⟩ := exists_of_list hlist
    rw [← h.resolve_eq] at hdirectory
    exact dotFiles_eq_of_isDotFile_iff hlist (list_of_resolve hdirectory) fun name =>
      ⟨h.symm.isDotFile, h.isDotFile⟩

lemma sameDotFiles (h : tree.HoldsSame tree') (directory : String) :
    SameDotFiles tree tree' directory where
  dotFiles_eq := h.dotFiles_eq directory
  read_eq := fun _ _ => h.read_eq _

end FileTree.HoldsSame

end BenchCover
