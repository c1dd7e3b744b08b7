import BenchCover.Proofs.Files.Listing
import BenchCover.Proofs.Suite.Alike
import BenchCover.Proofs.Suite.Load

/-!
# Loading with a file more that is passed over

Of two trees side by side the second has a DOT file more.  If that file is passed over, loading from
both trees gives suites that are alike.

* The DOT files of a directory are the same but for the additional one, which stands somewhere among
  them (`dotFiles_beside`).
* Micro benchmarks are read one after the other.  A file that is passed over may leave names behind,
  so that later functions get other ids, but the graphs stay the same by name
  (`loadMicrosFrom_beside`).
* The system benchmark of a suite is read first, so its ids stay the same (`Suite.load_beside`).
-/

namespace BenchCover

open Dot

variable {tree tree' : FileTree} {place found : Location} {bytes : List UInt8}
  {directory : String}

/-! ## The DOT files of a directory -/

lemma mergeSort_filter_of_mem {α : Type} {le : α → α → Bool}
    (htrans : ∀ a b c, le a b = true → le b c = true → le a c = true)
    (htotal : ∀ a b, (le a b || le b a) = true)
    (hantisymm : ∀ a b, le a b = true → le b a = true → a = b) {l l' : List α} {p : α → Bool}
    (hnodup : l.Nodup) (hnodup' : l'.Nodup) (hmem : ∀ a, a ∈ l ↔ a ∈ l' ∧ p a = true) :
    l.mergeSort le = (l'.mergeSort le).filter p := by
  have hperm : (l.mergeSort le).Perm ((l'.mergeSort le).filter p) := by
    refine (List.perm_ext_iff_of_nodup ?_ ?_).2 fun a => ?_
    · exact (List.mergeSort_perm l le).nodup_iff.2 hnodup
    · exact ((List.mergeSort_perm l' le).nodup_iff.2 hnodup').filter p
    · rw [List.mem_mergeSort, List.mem_filter, List.mem_mergeSort, hmem]
  exact hperm.eq_of_pairwise (fun a b _ _ => hantisymm a b)
    (List.pairwise_mergeSort htrans htotal l) ((List.pairwise_mergeSort htrans htotal l').filter p)

lemma mergeSort_names_eq {l names : List String} (h : l.Perm names)
    (hsorted : names.Pairwise (· ≤ ·)) : (l.mergeSort fun a b => decide (a ≤ b)) = names := by
  have hpairwise : (l.mergeSort fun a b => decide (a ≤ b)).Pairwise
      fun a b => decide (a ≤ b) = true :=
    List.pairwise_mergeSort (by simpa using fun a b c => String.le_trans)
      (by simpa using String.le_total) l
  exact ((List.mergeSort_perm _ _).trans h).eq_of_pairwise (fun a b _ _ => String.le_antisymm)
    (hpairwise.imp of_decide_eq_true) hsorted

/-- The DOT files of a directory, told by their names in order. -/
lemma dotFiles_of_perm {names : List String}
    (hdirectory : tree.resolve directory = .ok (.present found .directory))
    (hnames : ((tree.namesAt found).filter fun name =>
      dotExtension.toList.isSuffixOf name.toList && tree.isFile (Path.join directory name)).Perm
        names) (hsorted : names.Pairwise (· ≤ ·)) :
    dotFiles tree directory = .ok (names.map fun name => (name, Path.join directory name)) := by
  rw [dotFiles, FileTree.list_of_resolve hdirectory]
  exact congrArg (fun names => Except.ok (List.map _ names)) (mergeSort_names_eq hnames hsorted)

/-- How a file that is listed under a directory is read from both trees. -/
structure ReadsBeside (place found : Location) (bytes : List UInt8) (tree tree' : FileTree)
    (file : String × String) : Prop where
  old : found ++ [file.1] ≠ place → tree'.read file.2 = tree.read file.2
  new : found ++ [file.1] = place → tree'.read file.2 = .ok bytes

/-- Names of DOT files are no steps on the way of a path. -/
lemma proper_of_dotExtension {name : String}
    (h : dotExtension.toList.isSuffixOf name.toList = true) :
    name ≠ "" ∧ name ≠ "." ∧ name ≠ ".." := by
  refine ⟨?_, ?_, ?_⟩ <;> rintro rfl <;> exact absurd h (by decide)

/-- **A directory has the same DOT files in both trees**, but for the additional one. -/
theorem dotFiles_beside (h : FileTree.Beside place bytes tree tree') (hproper : tree.Proper)
    (hname : ∀ name, found ++ [name] = place → Path.IsName name)
    (hdirectory : tree.resolve directory = .ok (.present found .directory)) :
    ∃ files, dotFiles tree' directory = .ok files ∧
      dotFiles tree directory = .ok (files.filter fun file => found ++ [file.1] ≠ place) ∧
      ∀ file ∈ files, file.2 = Path.join directory file.1 ∧
        ReadsBeside place found bytes tree tree' file := by
  have hisName : ∀ name, name ∈ tree'.namesAt found → Path.IsName name := by
    intro name hmem
    rcases h.mem_namesAt_iff.1 hmem with hold | hnew
    · exact hproper.isName found name (FileTree.mem_namesAt.1 hold)
    · exact hname name hnew
  have hlisted : ∀ name, name ∈ tree'.namesAt found → found ++ [name] ≠ place →
      name ∈ tree.namesAt found := fun name hmem hnot =>
    (h.mem_namesAt_iff.1 hmem).resolve_right hnot
  refine ⟨_, by rw [dotFiles, FileTree.list_of_resolve (h.puts.resolve_directory hdirectory)], ?_, ?_⟩
  · rw [dotFiles, FileTree.list_of_resolve hdirectory, List.filter_map]
    refine congrArg (fun names => Except.ok (List.map _ names)) ?_
    refine mergeSort_filter_of_mem (by simpa using fun a b c => String.le_trans)
      (by simpa using String.le_total) (by simpa using fun a b => String.le_antisymm)
      ((tree.nodup_namesAt found).filter _) ((tree'.nodup_namesAt found).filter _) fun name => ?_
    simp only [List.mem_filter, Function.comp_apply, decide_eq_true_eq, Bool.and_eq_true]
    constructor
    · rintro ⟨hmem, hdot, hfile⟩
      have hplace : found ++ [name] ≠ place := fun hplace =>
        FileTree.mem_namesAt.1 hmem (hplace ▸ h.vacant)
      have hsame := h.isFile_join hdirectory (hisName name (h.mem_namesAt_iff.2 (Or.inl hmem)))
        (proper_of_dotExtension hdot) hmem
      exact ⟨⟨h.mem_namesAt_iff.2 (Or.inl hmem), hdot, hsame.trans hfile⟩, hplace⟩
    · rintro ⟨⟨hmem, hdot, hfile⟩, hplace⟩
      have hsame := h.isFile_join hdirectory (hisName name hmem) (proper_of_dotExtension hdot)
        (hlisted name hmem hplace)
      exact ⟨hlisted name hmem hplace, hdot, hsame.symm.trans hfile⟩
  · intro file hfile
    obtain ⟨name, hname, rfl⟩ := List.mem_map.1 hfile
    rw [List.mem_mergeSort, List.mem_filter, Bool.and_eq_true] at hname
    obtain ⟨hmem, hdot, hisFile⟩ := hname
    refine ⟨rfl, fun hplace => ?_, fun hplace => ?_⟩
    · have hold := hlisted name hmem hplace
      refine h.read_join hdirectory (hisName name hmem) (proper_of_dotExtension hdot) hold ?_
      rwa [h.isFile_join hdirectory (hisName name hmem) (proper_of_dotExtension hdot) hold] at hisFile
    · exact h.read_new hdirectory (hisName name hmem) (proper_of_dotExtension hdot) hplace hisFile

/-! ## Micro benchmarks -/

/-- **Micro benchmarks that are the same by name.** -/
def Micros.Alike (micros micros' : Micros) : Prop :=
  ∀ key, Option.Rel CallGraph.SameFunctions (micros.graphs.lookup key) (micros'.graphs.lookup key)

lemma Micros.Alike.insert {micros micros' : Micros} (h : micros.Alike micros') {g g' : CallGraph}
    (hg : g.SameFunctions g') (name : String) (registry registry' : Registry) :
    Micros.Alike ⟨micros.graphs.insert name g, registry⟩ ⟨micros'.graphs.insert name g', registry'⟩ := by
  intro key
  rw [SortedMap.lookup_insert, SortedMap.lookup_insert]
  split_ifs
  · exact .some hg
  · exact h key

/-- **A micro benchmark that is passed over** for a configuration: its name tells none or another
one, or one of its lines is refused. -/
def MicroPassedOver (bytes : List UInt8) (config : RenderConfig) (file : String × String) : Prop :=
  match FileName.parse file.1 with
  | .error _ => True
  | .ok parsed => parsed.config.agrees config = false ∨
      ∃ registry path number cause,
        (Document.read file.2 registry (Document.ofBytes bytes)).result
          = .error (.line path number cause)

/-- Reading a file with different registries gives the same functions by name, or the same fault. -/
lemma readDotFile_beside {path : String} (hread : tree'.read path = tree.read path)
    (registry registry' : Registry) :
    (∃ g g', (readDotFile tree path registry).result = .ok g ∧
        (readDotFile tree' path registry').result = .ok g' ∧ g.SameFunctions g') ∨
      ∃ fault, (readDotFile tree path registry).result = .error fault ∧
        (readDotFile tree' path registry').result = .error fault := by
  rw [readDotFile, readDotFile, hread]
  cases tree.read path with
  | error cause => exact Or.inr ⟨_, rfl, rfl⟩
  | ok bytes =>
    have hlabels := Document.labels_read path registry registry' (Document.ofBytes bytes)
    simp only
    cases hresult : (Document.read path registry (Document.ofBytes bytes)).result with
    | error fault =>
      cases hresult' : (Document.read path registry' (Document.ofBytes bytes)).result with
      | error fault' =>
        rw [hresult, hresult'] at hlabels
        cases hlabels
        exact Or.inr ⟨fault, rfl, rfl⟩
      | ok g' =>
        rw [hresult, hresult'] at hlabels
        cases hlabels
    | ok g =>
      cases hresult' : (Document.read path registry' (Document.ofBytes bytes)).result with
      | error fault' =>
        rw [hresult, hresult'] at hlabels
        cases hlabels
      | ok g' =>
        rw [hresult, hresult'] at hlabels
        exact Or.inl ⟨g, g', rfl, rfl, .of_labels (Except.ok.inj hlabels)⟩

/-- A document that is refused at a line is refused there with any registry. -/
lemma exists_line_of_read {path : String} {registry : Registry} {lines : Document.Lines}
    {file : String} {number : Nat} {cause : LineFault}
    (h : (Document.read path registry lines).result = .error (.line file number cause))
    (registry' : Registry) :
    (Document.read path registry' lines).result = .error (.line file number cause) := by
  have hlabels := Document.labels_read path registry registry' lines
  rw [h] at hlabels
  cases hresult : (Document.read path registry' lines).result with
  | error fault =>
    rw [hresult] at hlabels
    cases hlabels
    rfl
  | ok g =>
    rw [hresult] at hlabels
    cases hlabels

/-- A file that is passed over changes nothing but the registry. -/
lemma exists_loadMicrosFrom_of_passedOver {config : RenderConfig} {file : String × String}
    (hread : tree'.read file.2 = .ok bytes) (hpassed : MicroPassedOver bytes config file)
    (micros : Micros) (rest : List (String × String)) :
    ∃ registry, (loadMicrosFrom tree' config micros (file :: rest)).result
      = (loadMicrosFrom tree' config ⟨micros.graphs, registry⟩ rest).result := by
  obtain ⟨name, path⟩ := file
  rw [MicroPassedOver] at hpassed
  cases hname : FileName.parse name with
  | error cause => exact ⟨micros.registry, loadMicrosFrom_of_fileName hname⟩
  | ok parsed =>
    rw [hname] at hpassed
    cases hagrees : parsed.config.agrees config with
    | false => exact ⟨micros.registry, loadMicrosFrom_of_other hname hagrees⟩
    | true =>
      obtain ⟨registry, file, number, cause, hline⟩ := hpassed.resolve_left (by simp [hagrees])
      have hfault : (readDotFile tree' path micros.registry).result
          = .error (.line file number cause) := by
        rw [readDotFile, hread]
        exact exists_line_of_read hline micros.registry
      exact ⟨_, loadMicrosFrom_of_line hname hagrees hfault⟩

/-- **Reading the micro benchmarks from both trees** gives the same ones by name, or the same
fault. -/
theorem loadMicrosFrom_beside {config : RenderConfig} {micros micros' : Micros}
    {files : List (String × String)} (h : micros.Alike micros')
    (hreads : ∀ file ∈ files, ReadsBeside place found bytes tree tree' file)
    (hpassed : ∀ file ∈ files, found ++ [file.1] = place → MicroPassedOver bytes config file) :
    (∃ loaded loaded',
      (loadMicrosFrom tree config micros
        (files.filter fun file => found ++ [file.1] ≠ place)).result = .ok loaded ∧
      (loadMicrosFrom tree' config micros' files).result = .ok loaded' ∧
      loaded.Alike loaded') ∨
    ∃ fault,
      (loadMicrosFrom tree config micros
        (files.filter fun file => found ++ [file.1] ≠ place)).result = .error (.document fault) ∧
      (loadMicrosFrom tree' config micros' files).result = .error (.document fault) := by
  induction files generalizing micros micros' with
  | nil => exact Or.inl ⟨micros, micros', rfl, rfl, h⟩
  | cons file rest ih =>
    have hrest := fun {micros micros' : Micros} (h : micros.Alike micros') => ih h
      (fun other hother => hreads other (List.mem_cons_of_mem _ hother))
      (fun other hother => hpassed other (List.mem_cons_of_mem _ hother))
    have hfile := hreads file List.mem_cons_self
    by_cases hplace : found ++ [file.1] = place
    · rw [List.filter_cons_of_neg (by simpa using hplace)]
      obtain ⟨registry, hskip⟩ := exists_loadMicrosFrom_of_passedOver (hfile.new hplace)
        (hpassed file List.mem_cons_self hplace) micros' rest
      rw [hskip]
      exact hrest h
    · rw [List.filter_cons_of_pos (by simpa using hplace)]
      obtain ⟨name, path⟩ := file
      cases hname : FileName.parse name with
      | error cause =>
        rw [loadMicrosFrom_of_fileName hname, loadMicrosFrom_of_fileName hname]
        exact hrest h
      | ok parsed =>
        cases hagrees : parsed.config.agrees config with
        | false =>
          rw [loadMicrosFrom_of_other hname hagrees, loadMicrosFrom_of_other hname hagrees]
          exact hrest h
        | true =>
          rcases readDotFile_beside (hfile.old hplace) micros.registry micros'.registry with
            ⟨g, g', hgraph, hgraph', hsame⟩ | ⟨fault, hfault, hfault'⟩
          · rw [loadMicrosFrom_of_ok hname hagrees hgraph, loadMicrosFrom_of_ok hname hagrees hgraph']
            exact hrest (h.insert hsame name _ _)
          · cases fault with
            | file other cause =>
              exact Or.inr ⟨_, loadMicrosFrom_of_file hname hagrees hfault,
                loadMicrosFrom_of_file hname hagrees hfault'⟩
            | line other number cause =>
              rw [loadMicrosFrom_of_line hname hagrees hfault,
                loadMicrosFrom_of_line hname hagrees hfault']
              exact hrest h

/-! ## Suites -/

namespace Suite

variable {micro system : Location} {microDirectory systemDirectory systemFile : String}
  {config : RenderConfig}

/-- **Loading a suite from both trees** gives alike suites with the same system graph, or it fails
for a reason that concerns this configuration only. -/
theorem load_beside (h : FileTree.Beside place bytes tree tree') (hproper : tree.Proper)
    (hname : ∀ name, micro ++ [name] = place → Path.IsName name)
    (hmicro : tree.resolve microDirectory = .ok (.present micro .directory))
    (hread : tree'.read systemFile = tree.read systemFile)
    (hpassed : ∀ name, micro ++ [name] = place →
      MicroPassedOver bytes config (name, Path.join microDirectory name)) :
    (∃ suite suite', (load tree systemFile microDirectory config).result = .ok suite ∧
        (load tree' systemFile microDirectory config).result = .ok suite' ∧
        suite.SameSystem suite') ∨
      ∃ fault fault', (load tree systemFile microDirectory config).result = .error fault ∧
        (load tree' systemFile microDirectory config).result = .error fault' ∧
        (∀ cause, fault ≠ .directory cause) ∧ ∀ cause, fault' ≠ .directory cause := by
  have hgraph : readDotFile tree' systemFile .empty = readDotFile tree systemFile .empty := by
    rw [readDotFile, readDotFile, hread]
  cases hsystem : FileName.parse ((Path.finalName? systemFile).getD "") with
  | error cause =>
    exact Or.inr ⟨_, _, load_of_fileName hsystem, load_of_fileName hsystem, by simp, by simp⟩
  | ok parsed =>
    cases hagrees : parsed.config.agrees config with
    | false =>
      exact Or.inr ⟨_, _, load_of_mismatch hsystem hagrees, load_of_mismatch hsystem hagrees,
        by simp, by simp⟩
    | true =>
      cases hresult : (readDotFile tree systemFile .empty).result with
      | error cause =>
        exact Or.inr ⟨_, _, load_of_fault hsystem hagrees hresult,
          load_of_fault hsystem hagrees (hgraph ▸ hresult), by simp, by simp⟩
      | ok systemGraph =>
        obtain ⟨files, hfiles', hfiles, hreads⟩ := dotFiles_beside h hproper hname hmicro
        have hload := load_of_micros hsystem hagrees hresult hfiles
        have hload' := load_of_micros hsystem hagrees (hgraph ▸ hresult) hfiles'
        rw [hgraph] at hload'
        have hnone : Micros.Alike ⟨.empty, (readDotFile tree systemFile .empty).registry⟩
            ⟨.empty, (readDotFile tree systemFile .empty).registry⟩ := fun _ => .none
        have hskipped : ∀ file ∈ files, micro ++ [file.1] = place →
            MicroPassedOver bytes config file := by
          rintro ⟨name, path⟩ hfile hplace
          obtain rfl : path = Path.join microDirectory name := (hreads _ hfile).1
          exact hpassed name hplace
        rcases loadMicrosFrom_beside hnone (fun file hfile => (hreads file hfile).2) hskipped with
          ⟨loaded, loaded', hloaded, hloaded', hsame⟩ | ⟨fault, hfault, hfault'⟩
        · rw [hloaded] at hload
          rw [hloaded'] at hload'
          refine Or.inl ⟨_, _, hload, hload', ?_⟩
          exact
            { config := rfl
              system := rfl
              systemGraph := .refl systemGraph
              micros := hsame
              built := builtWith_of_load hload
              built' := builtWith_of_load hload'
              graph := rfl }
        · rw [hfault] at hload
          rw [hfault'] at hload'
          exact Or.inr ⟨_, _, hload, hload', by simp, by simp⟩

/-- **A system file that is passed over**: its name tells no configuration, or its text is
refused. -/
def SystemPassedOver (bytes : List UInt8) (file : String × String) : Prop :=
  match FileName.parse file.1 with
  | .error _ => True
  | .ok _ => ∃ fault, (Document.read file.2 .empty (Document.ofBytes bytes)).result = .error fault

lemma exists_fault_of_passedOver {file : String × String} (hread : tree'.read file.2 = .ok bytes)
    {fault : DocumentFault}
    (hfault : (Document.read file.2 .empty (Document.ofBytes bytes)).result = .error fault)
    (config : RenderConfig) :
    ∃ fault, (load tree' file.2 microDirectory config).result = .error fault ∧
      ∀ cause, fault ≠ .directory cause := by
  have hresult : (readDotFile tree' file.2 .empty).result = .error fault := by
    rw [readDotFile, hread]
    exact hfault
  cases hsystem : FileName.parse ((Path.finalName? file.2).getD "") with
  | error cause => exact ⟨_, load_of_fileName hsystem, by simp⟩
  | ok parsed =>
    cases hagrees : parsed.config.agrees config with
    | false => exact ⟨_, load_of_mismatch hsystem hagrees, by simp⟩
    | true => exact ⟨_, load_of_fault hsystem hagrees hresult, by simp⟩

/-- **Loading the suites of system files from both trees** gives suites that are alike one by
one. -/
theorem loadFiles_beside (h : FileTree.Beside place bytes tree tree') (hproper : tree.Proper)
    (hname : ∀ name, micro ++ [name] = place → Path.IsName name)
    (hmicro : tree.resolve microDirectory = .ok (.present micro .directory))
    {files : List (String × String)}
    (hreads : ∀ file ∈ files, ReadsBeside place system bytes tree tree' file)
    (hsystem : ∀ file ∈ files, system ++ [file.1] = place → SystemPassedOver bytes file)
    (hpassed : ∀ file ∈ files, system ++ [file.1] ≠ place → ∀ parsed,
      FileName.parse file.1 = .ok parsed → ∀ name, micro ++ [name] = place →
      MicroPassedOver bytes parsed.config (name, Path.join microDirectory name)) :
    ∃ suites suites',
      (loadFiles tree microDirectory
        (files.filter fun file => system ++ [file.1] ≠ place)).result = .ok suites ∧
      (loadFiles tree' microDirectory files).result = .ok suites' ∧
      List.Forall₂ SameSystem suites suites' := by
  induction files with
  | nil => exact ⟨[], [], rfl, rfl, .nil⟩
  | cons file rest ih =>
    obtain ⟨suites, suites', hsuites, hsuites', hsame⟩ :=
      ih (fun other hother => hreads other (List.mem_cons_of_mem _ hother))
        (fun other hother => hsystem other (List.mem_cons_of_mem _ hother))
        (fun other hother => hpassed other (List.mem_cons_of_mem _ hother))
    have hfile := hreads file List.mem_cons_self
    by_cases hplace : system ++ [file.1] = place
    · rw [List.filter_cons_of_neg (by simpa using hplace)]
      refine ⟨suites, suites', hsuites, ?_, hsame⟩
      have hpassed := hsystem file List.mem_cons_self hplace
      obtain ⟨name, path⟩ := file
      rw [SystemPassedOver] at hpassed
      cases hparse : FileName.parse name with
      | error cause => rw [loadFiles_of_fileName hparse, hsuites']
      | ok parsed =>
        rw [hparse] at hpassed
        obtain ⟨refused, hrefused⟩ := hpassed
        obtain ⟨fault, hfault, hkind⟩ :=
          exists_fault_of_passedOver (hfile.new hplace) hrefused parsed.config
        rw [loadFiles_of_fault hparse hfault hkind, hsuites']
    · rw [List.filter_cons_of_pos (by simpa using hplace)]
      have hmicros := hpassed file List.mem_cons_self hplace
      obtain ⟨name, path⟩ := file
      cases hparse : FileName.parse name with
      | error cause =>
        refine ⟨suites, suites', ?_, ?_, hsame⟩
        · rw [loadFiles_of_fileName hparse, hsuites]
        · rw [loadFiles_of_fileName hparse, hsuites']
      | ok parsed =>
        rcases load_beside h hproper hname hmicro (hfile.old hplace) (hmicros parsed hparse) with
          ⟨suite, suite', hload, hload', halike⟩ | ⟨fault, fault', hload, hload', hkind, hkind'⟩
        · refine ⟨suite :: suites, suite' :: suites', ?_, ?_, .cons halike hsame⟩
          · rw [loadFiles_of_ok hparse hload, hsuites]
            rfl
          · rw [loadFiles_of_ok hparse hload', hsuites']
            rfl
        · refine ⟨suites, suites', ?_, ?_, hsame⟩
          · rw [loadFiles_of_fault hparse hload hkind, hsuites]
          · rw [loadFiles_of_fault hparse hload' hkind', hsuites']

/-- **Loading from both trees** gives suites that are alike one by one, if the additional file is
passed over wherever it is listed. -/
theorem loadAll_beside (h : FileTree.Beside place bytes tree tree') (hproper : tree.Proper)
    (hname : ∀ directory name, directory ++ [name] = place → Path.IsName name)
    (hsystem : tree.resolve systemDirectory = .ok (.present system .directory))
    (hmicro : tree.resolve microDirectory = .ok (.present micro .directory))
    (hsystemPassed : ∀ name, system ++ [name] = place →
      SystemPassedOver bytes (name, Path.join systemDirectory name))
    (hmicroPassed : ∀ name, micro ++ [name] = place → ∀ files,
      dotFiles tree systemDirectory = .ok files → ∀ file ∈ files, ∀ parsed,
      FileName.parse file.1 = .ok parsed →
      MicroPassedOver bytes parsed.config (name, Path.join microDirectory name)) :
    ∃ suites suites', (loadAll tree systemDirectory microDirectory).result = .ok suites ∧
      (loadAll tree' systemDirectory microDirectory).result = .ok suites' ∧
      List.Forall₂ SameSystem suites suites' := by
  obtain ⟨files, hfiles', hfiles, hreads⟩ := dotFiles_beside h hproper (hname system) hsystem
  have hskipped : ∀ file ∈ files, system ++ [file.1] = place → SystemPassedOver bytes file := by
    rintro ⟨name, path⟩ hfile hplace
    obtain rfl : path = Path.join systemDirectory name := (hreads _ hfile).1
    exact hsystemPassed name hplace
  obtain ⟨suites, suites', hsuites, hsuites', hsame⟩ := loadFiles_beside h hproper (hname micro)
    hmicro (fun file hfile => (hreads file hfile).2) hskipped
    fun file hfile hplace parsed hparse name hnew => hmicroPassed name hnew _ hfiles file
      (List.mem_filter.2 ⟨hfile, by simpa using hplace⟩) parsed hparse
  refine ⟨suites, suites', ?_, ?_, hsame⟩
  · rw [loadAll, hfiles]
    exact hsuites
  · rw [loadAll, hfiles']
    exact hsuites'

end Suite

end BenchCover
