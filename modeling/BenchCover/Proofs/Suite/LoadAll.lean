import BenchCover.Proofs.Suite.DotFiles
import BenchCover.Proofs.Text.Bytes

/-!
# What is loaded

Which system benchmarks become suites, and which micro benchmarks a suite has, is told by the two
directories alone.

**Reach of faults.**  A system benchmark that is refused, a configuration that does not agree with itself
and a micro benchmark that cannot be read concern a configuration only (`Suite.load_cases`).  A micro
directory that cannot be listed ends the run, at the first system benchmark that needs it
(`Suite.loadFiles_cons`).

**Results.**  The system files that can be loaded become suites, in the order of their names, unless the
run is ended (`Suite.loadFiles_cases`).  A suite depends on its own system file and on the micro
benchmarks, but on no other file (`Suite.load_congr`).  All in all: `Suite.loadAll_spec`.
-/

namespace BenchCover

open Dot

/-! ## Suites -/

/-- **The micro benchmarks of a configuration can be read.** -/
def MicrosReadable (tree : FileTree) (microDirectory : String) (config : RenderConfig) : Prop :=
  ∀ name, IsDotFile tree microDirectory name → HasConfig config name →
    ¬ Unreadable tree (Path.join microDirectory name)

namespace Suite

/-- **A system benchmark that can be loaded**: its name tells a configuration that agrees with itself,
and its text is read as a graph. -/
structure Eligible (tree : FileTree) (path : String) (parsed : FileName) : Prop where
  agrees : parsed.config.agrees parsed.config = true
  parses : Parses tree path

/-- **The suite of a system benchmark**, with exactly those micro benchmarks of its configuration that
are read as graphs. -/
structure LoadedFrom (tree : FileTree) (microDirectory path : String) (parsed : FileName)
    (suite : Suite) : Prop where
  load_eq : (load tree path microDirectory parsed.config).result = .ok suite
  config_eq : suite.config = parsed.config
  system_eq : suite.system = parsed.base
  systemGraph_eq : (readDotFile tree path .empty).result = .ok suite.systemGraph
  mem_keys_iff : ∀ key, key ∈ suite.micros.keys ↔ IsDotFile tree microDirectory key ∧
    HasConfig parsed.config key ∧ Parses tree (Path.join microDirectory key)

variable {tree tree' : FileTree} {path microDirectory : String} {parsed : FileName}

/-- **What loading a suite comes to.** -/
lemma load_cases (hname : FileName.parse ((Path.finalName? path).getD "") = .ok parsed)
    (tree : FileTree) (microDirectory : String) :
    (Eligible tree path parsed ∧ ∃ cause, tree.list microDirectory = .error cause ∧
        (load tree path microDirectory parsed.config).result
          = .error (.directory ⟨microDirectory, cause⟩)) ∨
      (Eligible tree path parsed ∧ MicrosReadable tree microDirectory parsed.config ∧
        (∃ names, tree.list microDirectory = .ok names) ∧
        ∃ suite, LoadedFrom tree microDirectory path parsed suite) ∨
      (¬ (Eligible tree path parsed ∧ MicrosReadable tree microDirectory parsed.config) ∧
        ∃ fault, (load tree path microDirectory parsed.config).result = .error fault ∧
          ∀ cause, fault ≠ .directory cause) := by
  cases hagrees : parsed.config.agrees parsed.config with
  | false =>
    refine Or.inr (Or.inr ⟨fun h => ?_, _, load_of_mismatch hname hagrees, by simp⟩)
    cases hagrees.symm.trans h.1.agrees
  | true =>
    cases hresult : (readDotFile tree path .empty).result with
    | error cause =>
      refine Or.inr (Or.inr ⟨fun h => ?_, _, load_of_fault hname hagrees hresult, by simp⟩)
      obtain ⟨g, hgraph⟩ := h.1.parses
      cases hresult.symm.trans hgraph
    | ok g =>
      have heligible : Eligible tree path parsed := ⟨hagrees, g, hresult⟩
      cases hlist : tree.list microDirectory with
      | error cause =>
        exact Or.inl ⟨heligible, cause, rfl,
          load_of_directory hname hagrees hresult (dotFiles_of_error hlist)⟩
      | ok names =>
        obtain ⟨sorted, hfiles, -, -, hsorted⟩ := exists_dotFiles hlist
        have hload := load_of_micros hname hagrees hresult hfiles
        rcases loadMicrosFrom_cases tree parsed.config
            ⟨.empty, (readDotFile tree path .empty).registry⟩ (filesOf microDirectory sorted) with
          ⟨loaded, hloaded, hreadable, hkeys⟩ | ⟨fault, hfault, ⟨name, _⟩, hmem, hconfig, hnot⟩
        · rw [hloaded] at hload
          refine Or.inr (Or.inl ⟨heligible, fun name hdot hconfig => ?_, ⟨names, rfl⟩, _, hload, rfl,
            rfl, hresult, fun key => ?_⟩)
          · exact hreadable (name, Path.join microDirectory name)
              (mem_filesOf_iff.2 ⟨(hsorted name).2 hdot, rfl⟩) hconfig
          · refine (hkeys key).trans ?_
            constructor
            · rintro (hnone | ⟨⟨name, _⟩, hmem, rfl, hconfig, hparses⟩)
              · exact absurd hnone List.not_mem_nil
              · obtain ⟨hname, rfl⟩ := mem_filesOf_iff.1 hmem
                exact ⟨(hsorted name).1 hname, hconfig, hparses⟩
            · rintro ⟨hdot, hconfig, hparses⟩
              exact Or.inr ⟨(key, Path.join microDirectory key),
                mem_filesOf_iff.2 ⟨(hsorted key).2 hdot, rfl⟩, rfl, hconfig, hparses⟩
        · rw [hfault] at hload
          refine Or.inr (Or.inr ⟨fun h => ?_, _, hload, by simp⟩)
          obtain ⟨hname, rfl⟩ := mem_filesOf_iff.1 hmem
          exact h.2 name ((hsorted name).1 hname) hconfig hnot

/-! ### One system benchmark after the other -/

/-- **A system file that becomes a suite.** -/
def Loads (tree : FileTree) (microDirectory : String) (file : String × String) : Prop :=
  ∃ parsed, FileName.parse file.1 = .ok parsed ∧ Eligible tree file.2 parsed ∧
    MicrosReadable tree microDirectory parsed.config

/-- The suite that a system file becomes. -/
def Becomes (tree : FileTree) (microDirectory : String) (file : String × String) (suite : Suite) :
    Prop :=
  ∃ parsed, FileName.parse file.1 = .ok parsed ∧
    LoadedFrom tree microDirectory file.2 parsed suite

/-- **One system file** ends the run, becomes a suite or is passed over. -/
lemma loadFiles_cons {file : String × String} (hfinal : (Path.finalName? file.2).getD "" = file.1)
    (tree : FileTree) (microDirectory : String) (rest : List (String × String)) :
    ((∃ parsed, FileName.parse file.1 = .ok parsed ∧ Eligible tree file.2 parsed) ∧
        ∃ cause, tree.list microDirectory = .error cause ∧
          (loadFiles tree microDirectory (file :: rest)).result = .error ⟨microDirectory, cause⟩) ∨
      (Loads tree microDirectory file ∧ (∃ names, tree.list microDirectory = .ok names) ∧
        ∃ suite, Becomes tree microDirectory file suite ∧
          (loadFiles tree microDirectory (file :: rest)).result
            = (loadFiles tree microDirectory rest).result.map (suite :: ·)) ∨
      (¬ Loads tree microDirectory file ∧
        (loadFiles tree microDirectory (file :: rest)).result
          = (loadFiles tree microDirectory rest).result) := by
  obtain ⟨name, path⟩ := file
  cases hname : FileName.parse name with
  | error cause =>
    refine Or.inr (Or.inr ⟨?_, loadFiles_of_fileName hname rest⟩)
    rintro ⟨parsed, hparsed, -⟩
    cases hname.symm.trans hparsed
  | ok parsed =>
    rcases load_cases (by rw [hfinal]; exact hname) tree microDirectory with
      ⟨heligible, cause, hlist, hload⟩ | ⟨heligible, hreadable, hlist, suite, hsuite⟩ |
      ⟨hnot, fault, hload, hkind⟩
    · exact Or.inl ⟨⟨parsed, rfl, heligible⟩, cause, hlist, loadFiles_of_directory hname hload rest⟩
    · exact Or.inr (Or.inl ⟨⟨parsed, hname, heligible, hreadable⟩, hlist, suite,
        ⟨parsed, hname, hsuite⟩, loadFiles_of_ok hname hsuite.load_eq rest⟩)
    · refine Or.inr (Or.inr ⟨?_, loadFiles_of_fault hname hload hkind rest⟩)
      rintro ⟨parsed', hparsed, hloads⟩
      obtain rfl := Except.ok.inj (hname.symm.trans hparsed)
      exact hnot hloads

/-- **What becomes of the system files**: those that can be loaded become suites, in the same order,
unless the micro directory is needed and cannot be listed. -/
lemma loadFiles_cases {files : List (String × String)}
    (hfinal : ∀ file ∈ files, (Path.finalName? file.2).getD "" = file.1) (tree : FileTree)
    (microDirectory : String) :
    ((∃ file ∈ files, ∃ parsed, FileName.parse file.1 = .ok parsed ∧ Eligible tree file.2 parsed) ∧
        ∃ cause, tree.list microDirectory = .error cause ∧
          (loadFiles tree microDirectory files).result = .error ⟨microDirectory, cause⟩) ∨
      ((∀ cause, tree.list microDirectory = .error cause → ∀ file ∈ files, ∀ parsed,
          FileName.parse file.1 = .ok parsed → ¬ Eligible tree file.2 parsed) ∧
        ∃ loaded suites, loaded.Sublist files ∧
          (∀ file ∈ files, file ∈ loaded ↔ Loads tree microDirectory file) ∧
          (loadFiles tree microDirectory files).result = .ok suites ∧
          List.Forall₂ (Becomes tree microDirectory) loaded suites) := by
  -- the outcome of the other files comes first: a file that is passed over leaves it as it is
  induction files with
  | nil => exact Or.inr ⟨by simp, [], [], List.Sublist.refl _, by simp, rfl, .nil⟩
  | cons file rest ih =>
    rcases ih fun other hother => hfinal other (List.mem_cons_of_mem _ hother) with
      ⟨⟨other, hother, heligible⟩, cause, hlist, hrest⟩ |
      ⟨hnone, loaded, suites, hsublist, hloaded, hrest, hsuites⟩
    · rcases loadFiles_cons (hfinal file List.mem_cons_self) tree microDirectory rest with
        ⟨hfile, cause, hlist, hfault⟩ | ⟨-, ⟨names, hlist'⟩, -⟩ | ⟨-, hstep⟩
      · exact Or.inl ⟨⟨file, List.mem_cons_self, hfile⟩, cause, hlist, hfault⟩
      · cases hlist.symm.trans hlist'
      · exact Or.inl ⟨⟨other, List.mem_cons_of_mem _ hother, heligible⟩, cause, hlist,
          hstep.trans hrest⟩
    · rcases loadFiles_cons (hfinal file List.mem_cons_self) tree microDirectory rest with
        ⟨hfile, cause, hlist, hfault⟩ | ⟨hloads, ⟨names, hlist⟩, suite, hsuite, hstep⟩ |
        ⟨hnot, hstep⟩
      · exact Or.inl ⟨⟨file, List.mem_cons_self, hfile⟩, cause, hlist, hfault⟩
      · refine Or.inr ⟨fun cause hlist' => ?_, file :: loaded, suite :: suites, hsublist.cons_cons file,
          ?_, ?_, .cons hsuite hsuites⟩
        · cases hlist.symm.trans hlist'
        · refine List.forall_mem_cons.2 ⟨iff_of_true List.mem_cons_self hloads, ?_⟩
          intro other hother
          rw [List.mem_cons, hloaded other hother, or_iff_right_iff_imp]
          rintro rfl
          exact hloads
        · rw [hstep, hrest]
          rfl
      · refine Or.inr ⟨fun cause hlist => ?_, loaded, suites, hsublist.cons file, ?_,
          hstep.trans hrest, hsuites⟩
        · refine List.forall_mem_cons.2 ⟨?_, hnone cause hlist⟩
          exact fun parsed hparsed heligible => hnot ⟨parsed, hparsed, heligible,
            fun name hdot => absurd hdot (not_isDotFile_of_error hlist)⟩
        · refine List.forall_mem_cons.2 ⟨iff_of_false (fun hmem => ?_) hnot, hloaded⟩
          exact hnot ((hloaded file (hsublist.subset hmem)).1 hmem)

/-! ### What loading depends on -/

/-- **A suite depends on its own system file** and on the micro benchmarks, and on no other file. -/
lemma load_congr (hread : tree'.read path = tree.read path)
    (hmicros : SameDotFiles tree tree' microDirectory) (config : RenderConfig) :
    load tree' path microDirectory config = load tree path microDirectory config := by
  simp only [load, readDotFile_congr hread, hmicros.loadMicros_eq]

lemma loadFiles_congr (hread : ∀ path, tree'.read path = tree.read path)
    (hmicros : SameDotFiles tree tree' microDirectory) (files : List (String × String)) :
    loadFiles tree' microDirectory files = loadFiles tree microDirectory files := by
  induction files with
  | nil => rfl
  | cons file rest ih =>
    obtain ⟨name, path⟩ := file
    simp only [loadFiles, load_congr (hread path) hmicros, ih]

end Suite

/-! ## A small tree -/

/-- The directories of an analysis, with a system benchmark and what is there in place of a micro
benchmark. -/
def smallTree (document : List UInt8) (entry : FileEntry) : FileTree where
  entries := [(["s"], .directory), (["m"], .directory), (["o"], .directory),
    (["s", "a__1__0__0.dot"], .file document), (["m", "b__1__0__0.dot"], entry)]
  places_nodup := by simp
  workingDirectory := []

namespace SmallTree

variable {document : List UInt8} {entry : FileEntry} {tree : FileTree}

def config : RenderConfig := ⟨.dot, 1, .zero false, .zero false⟩

lemma agrees_config : config.agrees config = true := rfl

lemma parse_a : FileName.parse "a__1__0__0.dot" = .ok ⟨"a", config⟩ := rfl

lemma parse_b : FileName.parse "b__1__0__0.dot" = .ok ⟨"b", config⟩ := rfl

/-- A tree with the directories and the system benchmark. -/
structure Holds (tree : FileTree) (document : List UInt8) : Prop where
  system : tree.resolve "s" = .ok (.present ["s"] .directory)
  micro : tree.resolve "m" = .ok (.present ["m"] .directory)
  names : tree.namesAt ["s"] = ["a__1__0__0.dot"]
  file : tree.resolve "s/a__1__0__0.dot"
    = .ok (.present ["s", "a__1__0__0.dot"] (.file document))

lemma holds_of_get? (hworking : tree.workingDirectory = [])
    (hsystem : tree.get? ["s"] = some .directory) (hmicro : tree.get? ["m"] = some .directory)
    (hnames : tree.namesAt ["s"] = ["a__1__0__0.dot"])
    (hfile : tree.get? ["s", "a__1__0__0.dot"] = some (.file document)) : Holds tree document where
  system := by
    refine FileTree.walk_eq_ok_iff.2 ⟨by decide, ?_⟩
    rw [hworking]
    exact .into ⟨rfl, by decide, FileTree.nameFault?_of_le (by decide)⟩ hsystem nofun (.here hsystem)
  micro := by
    refine FileTree.walk_eq_ok_iff.2 ⟨by decide, ?_⟩
    rw [hworking]
    exact .into ⟨rfl, by decide, FileTree.nameFault?_of_le (by decide)⟩ hmicro nofun (.here hmicro)
  names := hnames
  file := by
    refine FileTree.walk_eq_ok_iff.2 ⟨by decide, ?_⟩
    rw [hworking]
    exact .into ⟨rfl, by decide, FileTree.nameFault?_of_le (by decide)⟩ hsystem nofun
      (.into ⟨hsystem, by decide, FileTree.nameFault?_of_le (by decide)⟩ hfile nofun (.here hfile))

lemma holds_smallTree : Holds (smallTree document entry) document :=
  holds_of_get? rfl rfl rfl (by simp [FileTree.namesAt, smallTree]) rfl

lemma resolve_b_of_get? (hworking : tree.workingDirectory = [])
    (hmicro : tree.get? ["m"] = some .directory)
    (hentry : tree.get? ["m", "b__1__0__0.dot"] = some entry) (hlink : ∀ path, entry ≠ .link path) :
    tree.resolve "m/b__1__0__0.dot" = .ok (.present ["m", "b__1__0__0.dot"] entry) := by
  refine FileTree.walk_eq_ok_iff.2 ⟨by decide, ?_⟩
  rw [hworking]
  exact .into ⟨rfl, by decide, FileTree.nameFault?_of_le (by decide)⟩ hmicro nofun
    (.into ⟨hmicro, by decide, FileTree.nameFault?_of_le (by decide)⟩ hentry hlink (.here hentry))

/-- A file in the micro directory changes nothing else. -/
lemma Holds.of_putsFile (h : Holds tree document) {place : Location} {bytes : List UInt8}
    {tree' : FileTree} (hputs : FileTree.PutsFile place bytes tree tree')
    (hnames : tree'.namesAt ["s"] = tree.namesAt ["s"]) (hplace : place ≠ ["s", "a__1__0__0.dot"]) :
    Holds tree' document where
  system := by
    have hsystem := hputs.walk_ok h.system
    rwa [FileTree.after_present_of_ne
      (hputs.ne_of_directory (FileTree.walk_eq_ok_iff.1 h.system).2.found)] at hsystem
  micro := by
    have hmicro := hputs.walk_ok h.micro
    rwa [FileTree.after_present_of_ne
      (hputs.ne_of_directory (FileTree.walk_eq_ok_iff.1 h.micro).2.found)] at hmicro
  names := hnames.trans h.names
  file := by
    have hfile := hputs.walk_ok h.file
    rwa [FileTree.after_present_of_ne hplace.symm] at hfile

lemma Holds.dotFiles (h : Holds tree document) :
    dotFiles tree "s" = .ok [("a__1__0__0.dot", "s/a__1__0__0.dot")] := by
  have hjoin : Path.join "s" "a__1__0__0.dot" = "s/a__1__0__0.dot" := rfl
  have hfile : tree.isFile "s/a__1__0__0.dot" = true := by rw [FileTree.isFile, h.file]
  rw [dotFiles_of_perm h.system _ (List.pairwise_singleton _ "a__1__0__0.dot"),
    List.map_singleton, hjoin]
  simp only [h.names, List.filter_cons, List.filter_nil, hjoin, hfile]
  decide

def readSystem (document : List UInt8) : Document.Outcome :=
  Document.read "s/a__1__0__0.dot" .empty (Document.ofBytes document)

/-- **What is loaded** is told by the micro directory. -/
lemma Holds.load (h : Holds tree document) {g : CallGraph}
    (hgraph : (readSystem document).result = .ok g) {files : List (String × String)}
    (hfiles : BenchCover.dotFiles tree "m" = .ok files) {micros : Micros}
    (hmicros : (loadMicrosFrom tree config ⟨.empty, (readSystem document).registry⟩
      files).result = .ok micros) :
    (Suite.load tree "s/a__1__0__0.dot" "m" config).result
      = .ok ⟨config, "a", g, micros.graphs, micros.registry⟩ := by
  have hsystem : readDotFile tree "s/a__1__0__0.dot" .empty = readSystem document :=
    readDotFile_of_resolve h.file .empty
  have hname : FileName.parse ((Path.finalName? "s/a__1__0__0.dot").getD "") = .ok ⟨"a", config⟩ :=
    parse_a
  rw [Suite.load_of_micros hname agrees_config (by rw [hsystem, hgraph]) hfiles, hsystem, hmicros]
  rfl

lemma Holds.loadAll (h : Holds tree document) {suite : Suite}
    (hok : (Suite.load tree "s/a__1__0__0.dot" "m" config).result = .ok suite) :
    (Suite.loadAll tree "s" "m").result = .ok [suite] :=
  Suite.loadAll_of_single h.dotFiles parse_a hok

end SmallTree

/-! ## A file that is refused at a line -/

/-- A document with nodes of a second each. -/
def nodesText (functions : List String) : String :=
  String.join (functions.map fun function =>
    "N1 [label=\"1s %\" tooltip=\"" ++ function ++ "\"]\n")

def systemDocument : List UInt8 :=
  (nodesText ["p/load"]).toUTF8.toList

def microDocument : List UInt8 :=
  (nodesText ["p/load", "p/trace"]).toUTF8.toList

/-- A document that is refused at its last line, behind a function. -/
def halfDocument : List UInt8 :=
  (nodesText ["p/merge"] ++ "N3").toUTF8.toList

/-- A micro benchmark with a function that the system does not have. -/
def tracingTree : FileTree :=
  smallTree systemDocument (.file microDocument)

namespace Half

open SmallTree

/-- The half document is read before the micro benchmark. -/
def tree : FileTree :=
  tracingTree.set (["m"] ++ ["a__1__0__0.dot"]) (.file halfDocument)

lemma putsFile : FileTree.PutsFile ["m", "a__1__0__0.dot"] halfDocument tracingTree tree :=
  FileTree.putsFile_set (Or.inl rfl) halfDocument

lemma holds_tracingTree : Holds tracingTree systemDocument := holds_smallTree

lemma holds_tree : Holds tree systemDocument :=
  holds_tracingTree.of_putsFile putsFile rfl (by decide)

lemma resolve_b : tracingTree.resolve "m/b__1__0__0.dot"
    = .ok (.present ["m", "b__1__0__0.dot"] (.file microDocument)) :=
  resolve_b_of_get? rfl rfl rfl nofun

lemma resolve_a : tracingTree.resolve "m/a__1__0__0.dot"
    = .ok (.vacant ["m", "a__1__0__0.dot"]) :=
  FileTree.walk_eq_ok_iff.2 ⟨by decide, .into ⟨rfl, by decide, by decide⟩ rfl nofun
    (.vacant ⟨rfl, by decide, by decide⟩ rfl)⟩

/-! ### What is read -/

/-- The registry after some names were met. -/
def known (names : List String) : Registry :=
  (Registry.empty.registerAll names).1

def readMicro (registry : Registry) : Document.Outcome :=
  Document.read "m/b__1__0__0.dot" registry (Document.ofBytes microDocument)

def readHalf (registry : Registry) : Document.Outcome :=
  Document.read (Path.join "m" "a__1__0__0.dot") registry (Document.ofBytes halfDocument)

lemma eq_of_names {registry registry' : Registry} (h : registry.names = registry'.names) :
    registry = registry' := by
  cases registry
  cases registry'
  cases h
  rfl

lemma exists_read {outcome : Document.Outcome} {names : List String}
    (h : outcome.result.isOk = true ∧ outcome.registry.names = (known names).names) :
    ∃ g, outcome.result = .ok g ∧ outcome.registry = known names := by
  obtain ⟨hok, hnames⟩ := h
  cases hresult : outcome.result with
  | error fault =>
    rw [hresult] at hok
    cases hok
  | ok g => exact ⟨g, rfl, eq_of_names hnames⟩

lemma read_system : ∃ g, (readSystem systemDocument).result = .ok g ∧
    (readSystem systemDocument).registry = known ["p/load"] :=
  exists_read (by decide +kernel)

lemma read_micro : ∃ g, (readMicro (known ["p/load"])).result = .ok g ∧
    (readMicro (known ["p/load"])).registry = known ["p/load", "p/trace"] :=
  exists_read (by decide +kernel)

/-- The half document leaves its function behind. -/
lemma read_half : (∃ path number cause,
    (readHalf (known ["p/load"])).result = .error (.line path number cause)) ∧
      (readHalf (known ["p/load"])).registry = known ["p/load", "p/merge"] := by
  have hread : (match (readHalf (known ["p/load"])).result with
      | .error (.line _ number _) => number
      | _ => 0) = 2 ∧
      (readHalf (known ["p/load"])).registry.names = (known ["p/load", "p/merge"]).names := by
    decide +kernel
  refine ⟨?_, eq_of_names hread.2⟩
  have hline := hread.1
  split at hline
  · next path number cause hresult => exact ⟨path, number, cause, hresult⟩
  · cases hline

lemma read_micro_after : ∃ g, (readMicro (known ["p/load", "p/merge"])).result = .ok g ∧
    (readMicro (known ["p/load", "p/merge"])).registry
      = known ["p/load", "p/merge", "p/trace"] :=
  exists_read (by decide +kernel)

/-! ### What is loaded -/

/-- With nothing else in the micro directory, the function of the micro benchmark is the second one. -/
lemma loadAll_of_holds {tree : FileTree} (h : Holds tree systemDocument)
    (hnames : tree.namesAt ["m"] = ["b__1__0__0.dot"])
    (hresolve : tree.resolve "m/b__1__0__0.dot"
      = .ok (.present ["m", "b__1__0__0.dot"] (.file microDocument))) :
    ∃ suite, (Suite.loadAll tree "s" "m").result = .ok [suite] ∧
      suite.registry.lookup? "p/trace" = some 1 := by
  have hfiles : dotFiles tree "m" = .ok [("b__1__0__0.dot", "m/b__1__0__0.dot")] := by
    have hjoin : Path.join "m" "b__1__0__0.dot" = "m/b__1__0__0.dot" := rfl
    have hfile : tree.isFile "m/b__1__0__0.dot" = true := by
      rw [FileTree.isFile, hresolve]
    rw [dotFiles_of_perm h.micro _ (List.pairwise_singleton _ "b__1__0__0.dot"),
      List.map_singleton, hjoin]
    simp only [hnames, List.filter_cons, List.filter_nil, hjoin, hfile]
    decide
  obtain ⟨g, hgraph, hsystem⟩ := read_system
  obtain ⟨micro, hmicro, hregistry⟩ := read_micro
  have hread : readDotFile tree "m/b__1__0__0.dot" (known ["p/load"])
      = readMicro (known ["p/load"]) := readDotFile_of_resolve hresolve _
  have hmicros : (loadMicrosFrom tree config ⟨.empty, known ["p/load"]⟩
      [("b__1__0__0.dot", "m/b__1__0__0.dot")]).result
        = .ok ⟨SortedMap.empty.insert "b__1__0__0.dot" micro, known ["p/load", "p/trace"]⟩ := by
    rw [loadMicrosFrom_of_ok parse_b agrees_config (by rw [hread, hmicro]), hread, hregistry]
    rfl
  have hid : (known ["p/load", "p/trace"]).lookup? "p/trace" = some 1 := by decide
  exact ⟨_, h.loadAll (h.load hgraph hfiles (hsystem ▸ hmicros)), hid⟩

lemma loadAll_tracingTree : ∃ suite, (Suite.loadAll tracingTree "s" "m").result = .ok [suite] ∧
    suite.registry.lookup? "p/trace" = some 1 :=
  loadAll_of_holds holds_tracingTree rfl resolve_b

/-- With the half document it is the third one. -/
lemma load_tree : ∃ suite,
    (Suite.load tree "s/a__1__0__0.dot" "m" config).result = .ok suite ∧
    suite.registry.lookup? "p/trace" = some 2 := by
  have hresolve : tree.resolve "m/a__1__0__0.dot"
      = .ok (.present ["m", "a__1__0__0.dot"] (.file halfDocument)) := putsFile.walk_ok resolve_a
  have hresolve' : tree.resolve "m/b__1__0__0.dot"
      = .ok (.present ["m", "b__1__0__0.dot"] (.file microDocument)) := putsFile.walk_ok resolve_b
  have hjoin : Path.join "m" "a__1__0__0.dot" = "m/a__1__0__0.dot" := rfl
  have hfiles : dotFiles tree "m"
      = .ok [("a__1__0__0.dot", "m/a__1__0__0.dot"), ("b__1__0__0.dot", "m/b__1__0__0.dot")] := by
    have hjoin' : Path.join "m" "b__1__0__0.dot" = "m/b__1__0__0.dot" := rfl
    have hfile : tree.isFile "m/a__1__0__0.dot" = true := by rw [FileTree.isFile, hresolve]
    have hfile' : tree.isFile "m/b__1__0__0.dot" = true := by rw [FileTree.isFile, hresolve']
    have hnames : tree.namesAt ["m"] = ["b__1__0__0.dot", "a__1__0__0.dot"] := rfl
    have hsorted : ["a__1__0__0.dot", "b__1__0__0.dot"].Pairwise (· ≤ ·) := by decide
    rw [dotFiles_of_perm holds_tree.micro _ hsorted]
    · simp only [List.map_cons, List.map_nil, hjoin, hjoin']
    · simp only [hnames, List.filter_cons, List.filter_nil, hjoin, hjoin', hfile, hfile']
      decide
  obtain ⟨g, hgraph, hsystem⟩ := read_system
  obtain ⟨⟨path, number, cause, hline⟩, hleft⟩ := read_half
  obtain ⟨micro, hmicro, hregistry⟩ := read_micro_after
  have hread : readDotFile tree "m/a__1__0__0.dot" (known ["p/load"])
      = readHalf (known ["p/load"]) := by
    rw [readDotFile_of_resolve hresolve, readHalf, hjoin]
  have hread' : readDotFile tree "m/b__1__0__0.dot" (known ["p/load", "p/merge"])
      = readMicro (known ["p/load", "p/merge"]) := readDotFile_of_resolve hresolve' _
  have hmicros : (loadMicrosFrom tree config ⟨.empty, known ["p/load"]⟩
      [("a__1__0__0.dot", "m/a__1__0__0.dot"), ("b__1__0__0.dot", "m/b__1__0__0.dot")]).result
        = .ok ⟨SortedMap.empty.insert "b__1__0__0.dot" micro,
            known ["p/load", "p/merge", "p/trace"]⟩ := by
    rw [loadMicrosFrom_of_line parse_a agrees_config (by rw [hread, hline]), hread, hleft,
      loadMicrosFrom_of_ok parse_b agrees_config (by rw [hread', hmicro]), hread', hregistry]
    rfl
  have hid : (known ["p/load", "p/merge", "p/trace"]).lookup? "p/trace" = some 2 := by decide
  exact ⟨_, holds_tree.load hgraph hfiles (hsystem ▸ hmicros), hid⟩

lemma loadAll_tree : ∃ suite, (Suite.loadAll tree "s" "m").result = .ok [suite] ∧
    suite.registry.lookup? "p/trace" = some 2 := by
  obtain ⟨suite, hload, hid⟩ := load_tree
  exact ⟨suite, holds_tree.loadAll hload, hid⟩

end Half

/-! ## All in all -/

namespace Suite

variable {systemDirectory : String} {names : List String}

lemma pairwise_bytesBefore (hpairwise : names.Pairwise (· ≤ ·)) (hnodup : names.Nodup) :
    names.Pairwise Text.BytesBefore :=
  (hpairwise.and hnodup).imp fun h =>
    Text.bytesBefore_of_lt (String.not_le.1 fun hle => h.2 (String.le_antisymm h.1 hle))

/-- **What becomes of a system directory**: the run of `loadFiles_cases` over its DOT files, told by their
names. -/
lemma loadAll_cases (hproper : tree.Proper) (hlist : tree.list systemDirectory = .ok names)
    (microDirectory : String) :
    ((∃ name parsed, IsDotFile tree systemDirectory name ∧ FileName.parse name = .ok parsed ∧
          Eligible tree (Path.join systemDirectory name) parsed) ∧
        ∃ cause, tree.list microDirectory = .error cause ∧
          (loadAll tree systemDirectory microDirectory).result = .error ⟨microDirectory, cause⟩) ∨
      ((∀ cause, tree.list microDirectory = .error cause → ∀ name parsed,
          IsDotFile tree systemDirectory name → FileName.parse name = .ok parsed →
            ¬ Eligible tree (Path.join systemDirectory name) parsed) ∧
        ∃ loaded suites, loaded.Pairwise Text.BytesBefore ∧
          (∀ name, name ∈ loaded ↔ IsDotFile tree systemDirectory name ∧
            Loads tree microDirectory (name, Path.join systemDirectory name)) ∧
          (loadAll tree systemDirectory microDirectory).result = .ok suites ∧
          List.Forall₂ (fun name suite =>
            Becomes tree microDirectory (name, Path.join systemDirectory name) suite)
            loaded suites) := by
  obtain ⟨sorted, hfiles, hpairwise, hnodup, hsorted⟩ := exists_dotFiles hlist
  have hfinal : ∀ file ∈ filesOf systemDirectory sorted,
      (Path.finalName? file.2).getD "" = file.1 := by
    rintro ⟨name, _⟩ hmem
    obtain ⟨hname, rfl⟩ := mem_filesOf_iff.1 hmem
    exact ((hsorted name).1 hname).finalName_eq hproper
  have hload : loadAll tree systemDirectory microDirectory
      = loadFiles tree microDirectory (filesOf systemDirectory sorted) := by
    rw [loadAll, hfiles]
  rw [hload]
  rcases loadFiles_cases hfinal tree microDirectory with
    ⟨⟨⟨name, _⟩, hmem, parsed, hparsed, heligible⟩, cause, hmicro, hfault⟩ |
    ⟨hnone, _, suites, hsublist, hloaded, hok, hbecome⟩
  · obtain ⟨hname, rfl⟩ := mem_filesOf_iff.1 hmem
    exact Or.inl ⟨⟨name, parsed, (hsorted name).1 hname, hparsed, heligible⟩, cause, hmicro, hfault⟩
  · obtain ⟨loaded, hnames, rfl⟩ := List.sublist_map_iff.1 hsublist
    refine Or.inr ⟨fun cause hmicro name parsed hdot => ?_, loaded, suites,
      (pairwise_bytesBefore hpairwise hnodup).sublist hnames, fun name => ?_, hok,
      List.forall₂_map_left_iff.1 hbecome⟩
    · exact hnone cause hmicro _ (mem_filesOf_iff.2 ⟨(hsorted name).2 hdot, rfl⟩) parsed
    · rw [← hsorted]
      constructor
      · intro hmem
        have hname := hnames.subset hmem
        exact ⟨hname, (hloaded _ (mem_filesOf_iff.2 ⟨hname, rfl⟩)).1 (List.mem_map_of_mem hmem)⟩
      · rintro ⟨hname, hloads⟩
        have hmem := (hloaded _ (mem_filesOf_iff.2 ⟨hname, rfl⟩)).2 hloads
        exact (mem_filesOf_iff.1 hmem).1

lemma loadAll_congr (hlist : tree.list systemDirectory = .ok names) (hsame : tree.HoldsSame tree')
    (microDirectory : String) :
    loadAll tree' systemDirectory microDirectory = loadAll tree systemDirectory microDirectory := by
  obtain ⟨sorted, hfiles, -⟩ := exists_dotFiles hlist
  rw [loadAll, loadAll, hsame.dotFiles_eq, hfiles]
  exact loadFiles_congr hsame.read_eq (hsame.sameDotFiles microDirectory) _

/-- **What is loaded** from a system directory that can be listed, in a tree as file systems have them.

* Loading fails if and only if some system benchmark can be loaded but for the micro benchmarks, and
  the micro directory cannot be listed.
* Otherwise there is one suite for each system file with a configuration that agrees with itself and
  with a text that is read as a graph, if all micro benchmarks of the configuration can be read.  The
  suites stand in the order of the bytes of the names, and each of them has exactly those micro
  benchmarks of its configuration whose text is read as a graph.
* It does not matter in which order the directories have their entries.
* A suite depends on its own system file and on the micro directory, but on no other system file. -/
theorem loadAll_spec (tree : FileTree) (systemDirectory microDirectory : String) (hproper : tree.Proper)
    {names : List String} (hlist : tree.list systemDirectory = .ok names) :
    (∀ fault, (loadAll tree systemDirectory microDirectory).result = .error fault ↔
        (∃ cause, tree.list microDirectory = .error cause ∧ fault = ⟨microDirectory, cause⟩) ∧
          ∃ name parsed, IsDotFile tree systemDirectory name ∧ FileName.parse name = .ok parsed ∧
            Eligible tree (Path.join systemDirectory name) parsed) ∧
      (∀ suites, (loadAll tree systemDirectory microDirectory).result = .ok suites →
        ∃ loaded : List String, loaded.Pairwise Text.BytesBefore ∧
          (∀ name, name ∈ loaded ↔ IsDotFile tree systemDirectory name ∧
            Loads tree microDirectory (name, Path.join systemDirectory name)) ∧
          List.Forall₂ (fun name suite =>
            Becomes tree microDirectory (name, Path.join systemDirectory name) suite)
            loaded suites) ∧
      (∀ tree', tree.HoldsSame tree' →
        loadAll tree' systemDirectory microDirectory = loadAll tree systemDirectory microDirectory) ∧
      ∀ tree' name config, SameDotFiles tree tree' microDirectory →
        tree'.read (Path.join systemDirectory name) = tree.read (Path.join systemDirectory name) →
        load tree' (Path.join systemDirectory name) microDirectory config
          = load tree (Path.join systemDirectory name) microDirectory config := by
  refine ⟨fun fault => ?_, fun suites hsuites => ?_, fun tree' hsame => ?_, ?_⟩
  · rcases loadAll_cases hproper hlist microDirectory with
      ⟨heligible, cause, hmicro, hresult⟩ | ⟨hnone, loaded, suites, -, -, hresult, -⟩
    · rw [hresult]
      constructor
      · intro hfault
        exact ⟨⟨cause, hmicro, (Except.error.inj hfault).symm⟩, heligible⟩
      · rintro ⟨⟨cause', hmicro', rfl⟩, -⟩
        obtain rfl := Except.error.inj (hmicro.symm.trans hmicro')
        rfl
    · rw [hresult]
      refine iff_of_false (fun hfault => by cases hfault) ?_
      rintro ⟨⟨cause, hmicro, -⟩, name, parsed, hdot, hparsed, heligible⟩
      exact hnone cause hmicro name parsed hdot hparsed heligible
  · rcases loadAll_cases hproper hlist microDirectory with
      ⟨-, cause, -, hresult⟩ | ⟨-, loaded, suites', hbytes, hloaded, hresult, hbecome⟩
    · cases hsuites.symm.trans hresult
    · obtain rfl := Except.ok.inj (hsuites.symm.trans hresult)
      exact ⟨loaded, hbytes, hloaded, hbecome⟩
  · exact loadAll_congr hlist hsame microDirectory
  · exact fun tree' name config hmicros hread => load_congr hread hmicros config

/-- With the half document in the micro directory, the suite has the other micro benchmark. -/
theorem loadAll_spec_half : Half.tree.Proper ∧ Half.tree.list "s" = .ok ["a__1__0__0.dot"] ∧
    ∃ suite, (loadAll Half.tree "s" "m").result = .ok [suite] ∧
      ∀ key, key ∈ suite.micros.keys ↔ IsDotFile Half.tree "m" key ∧
        HasConfig suite.config key ∧ Parses Half.tree (Path.join "m" key) := by
  have hproper : Half.tree.Proper := by decide
  have hlist : Half.tree.list "s" = .ok ["a__1__0__0.dot"] := by
    rw [FileTree.list_of_resolve Half.holds_tree.system, Half.holds_tree.names]
  obtain ⟨suite, hsuite, -⟩ := Half.loadAll_tree
  obtain ⟨names, -, -, hbecomes⟩ := (loadAll_spec Half.tree "s" "m" hproper hlist).2.1 _ hsuite
  obtain ⟨name, rest, ⟨parsed, -, hloaded⟩, -, -⟩ := List.forall₂_cons_right_iff.1 hbecomes
  refine ⟨hproper, hlist, suite, hsuite, ?_⟩
  rw [hloaded.config_eq]
  exact hloaded.mem_keys_iff

end Suite

end BenchCover
