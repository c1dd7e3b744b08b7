import BenchCover.Proofs.Dot.Reading
import BenchCover.Proofs.Suite.Naming
import BenchCover.Suite.Load

/-!
# What loading a suite establishes

**Step by step.**  What becomes of a file is told by equations: for a micro benchmark, by its name and
its text (`loadMicrosFrom_of_ok` and the lemmas beside it), for a system benchmark, by these and then
by the micro benchmarks (`Suite.load_of_micros`, `Suite.loadFiles_of_ok` and the lemmas beside them).

**All in all.**  The graphs of a suite are read one after the other with a registry that only grows.
So each of them is named by the registry that is left in the end: `Suite.builtWith_of_load`.
-/

namespace BenchCover

open Dot

variable {tree : FileTree} {path : String} {registry : Registry} {g : CallGraph}

/-! ## Warnings -/

@[simp]
lemma Loaded.result_after {ε α : Type} (warnings : List LoadWarning) (loaded : Loaded ε α) :
    (loaded.after warnings).result = loaded.result := rfl

/-! ## Files -/

lemma extends_readDotFile (tree : FileTree) (path : String) (registry : Registry) :
    registry.Extends (readDotFile tree path registry).registry := by
  rw [readDotFile]
  split
  · exact .refl registry
  · exact Document.extends_read path registry _

lemma namedBy_of_readDotFile (hg : (readDotFile tree path registry).result = .ok g) :
    g.NamedBy (readDotFile tree path registry).registry := by
  rw [readDotFile] at hg ⊢
  split at hg
  · cases hg
  · exact Document.namedBy_of_read hg

lemma readDotFile_of_resolve {place : Location} {bytes : List UInt8}
    (hfile : tree.resolve path = .ok (.present place (.file bytes))) (registry : Registry) :
    readDotFile tree path registry = Document.read path registry (Document.ofBytes bytes) := by
  have hread : tree.read path = .ok bytes := by
    rw [FileTree.read, hfile]
    rfl
  rw [readDotFile, hread]

/-! ## Micro benchmarks -/

namespace Micros

/-- **Micro benchmarks that were read with their registry.** -/
def Named (micros : Micros) : Prop :=
  ∀ key micro, micros.graphs.lookup key = some micro → micro.NamedBy micros.registry

lemma named_empty (registry : Registry) : Named ⟨.empty, registry⟩ :=
  fun _ _ hlookup => nomatch hlookup

lemma Named.mono {micros : Micros} (h : micros.Named) (hextends : micros.registry.Extends registry) :
    Named ⟨micros.graphs, registry⟩ :=
  fun key micro hlookup => (h key micro hlookup).mono hextends

lemma Named.insert {micros : Micros} (h : micros.Named) (hg : g.NamedBy micros.registry)
    (name : String) : Named ⟨micros.graphs.insert name g, micros.registry⟩ := by
  intro key micro hlookup
  rw [SortedMap.lookup_insert] at hlookup
  split_ifs at hlookup with hsame
  · obtain rfl := Option.some.inj hlookup
    exact hg
  · exact h key micro hlookup

end Micros

/-! ### One file after the other -/

section Steps

variable {config : RenderConfig} {micros : Micros} {name : String} {parsed : FileName}
  {rest : List (String × String)}

-- The equations that the lemmas below unfold are made here, once and for all of them.
attribute [local simp] loadMicrosFrom

lemma loadMicrosFrom_of_fileName {cause : FileNameFault} (hname : FileName.parse name = .error cause) :
    (loadMicrosFrom tree config micros ((name, path) :: rest)).result
      = (loadMicrosFrom tree config micros rest).result := by
  simp only [loadMicrosFrom, hname, Loaded.result_after]

lemma loadMicrosFrom_of_other (hname : FileName.parse name = .ok parsed)
    (hother : parsed.config.agrees config = false) :
    (loadMicrosFrom tree config micros ((name, path) :: rest)).result
      = (loadMicrosFrom tree config micros rest).result := by
  simp only [loadMicrosFrom, hname, hother, Bool.not_false, if_true]

lemma loadMicrosFrom_of_ok (hname : FileName.parse name = .ok parsed)
    (hagrees : parsed.config.agrees config = true)
    (hgraph : (readDotFile tree path micros.registry).result = .ok g) :
    (loadMicrosFrom tree config micros ((name, path) :: rest)).result
      = (loadMicrosFrom tree config ⟨micros.graphs.insert name g,
          (readDotFile tree path micros.registry).registry⟩ rest).result := by
  simp only [loadMicrosFrom, hname, hagrees, hgraph, Bool.not_true, Bool.false_eq_true, if_false,
    Loaded.result_after]

lemma loadMicrosFrom_of_file (hname : FileName.parse name = .ok parsed)
    (hagrees : parsed.config.agrees config = true) {file : String} {cause : FileFault}
    (hfault : (readDotFile tree path micros.registry).result = .error (.file file cause)) :
    (loadMicrosFrom tree config micros ((name, path) :: rest)).result
      = .error (.document (.file file cause)) := by
  simp only [loadMicrosFrom, hname, hagrees, hfault, Bool.not_true, Bool.false_eq_true, if_false]

/-- **A line that is refused** leaves the names behind that were met before it. -/
lemma loadMicrosFrom_of_line (hname : FileName.parse name = .ok parsed)
    (hagrees : parsed.config.agrees config = true) {file : String} {number : Nat}
    {cause : LineFault}
    (hfault : (readDotFile tree path micros.registry).result
      = .error (.line file number cause)) :
    (loadMicrosFrom tree config micros ((name, path) :: rest)).result
      = (loadMicrosFrom tree config ⟨micros.graphs,
          (readDotFile tree path micros.registry).registry⟩ rest).result := by
  simp only [loadMicrosFrom, hname, hagrees, hfault, Bool.not_true, Bool.false_eq_true, if_false,
    Loaded.result_after]

end Steps

lemma named_of_loadMicrosFrom {config : RenderConfig} {micros loaded : Micros}
    {files : List (String × String)} (h : micros.Named)
    (hok : (loadMicrosFrom tree config micros files).result = .ok loaded) :
    loaded.Named ∧ micros.registry.Extends loaded.registry := by
  fun_induction loadMicrosFrom tree config micros files with
  | case1 micros =>
    obtain rfl := Except.ok.inj hok
    exact ⟨h, .refl _⟩
  | case2 micros name path rest cause hname ih => exact ih h hok
  | case3 micros name path rest parsed hname hother ih => exact ih h hok
  | case4 micros name path rest parsed hname hsame outcome warnings graph hresult ih =>
    have hextends := extends_readDotFile tree path micros.registry
    have hnamed := (h.mono hextends).insert (namedBy_of_readDotFile hresult) name
    exact ⟨(ih hnamed hok).1, hextends.trans (ih hnamed hok).2⟩
  | case5 => cases hok
  | case6 micros name path rest parsed hname hsame outcome warnings file number cause hresult ih =>
    have hextends := extends_readDotFile tree path micros.registry
    exact ⟨(ih (h.mono hextends) hok).1, hextends.trans (ih (h.mono hextends) hok).2⟩

/-- Micro benchmarks keep the names of their files, which tell the configuration. -/
lemma exists_parse_of_loadMicrosFrom {config : RenderConfig} {micros loaded : Micros}
    {files : List (String × String)}
    (h : ∀ key ∈ micros.graphs.keys, ∃ name, FileName.parse key = .ok name ∧
      name.config.agrees config = true)
    (hok : (loadMicrosFrom tree config micros files).result = .ok loaded) :
    ∀ key ∈ loaded.graphs.keys, ∃ name, FileName.parse key = .ok name ∧
      name.config.agrees config = true := by
  fun_induction loadMicrosFrom tree config micros files with
  | case1 micros =>
    obtain rfl := Except.ok.inj hok
    exact h
  | case2 micros name path rest cause hname ih => exact ih h hok
  | case3 micros name path rest parsed hname hother ih => exact ih h hok
  | case4 micros name path rest parsed hname hsame outcome warnings graph hresult ih =>
    refine ih (fun key hkey => ?_) hok
    rcases SortedMap.mem_keys_insert.1 hkey with rfl | hkey
    · exact ⟨parsed, hname, by simpa using hsame⟩
    · exact h key hkey
  | case5 => cases hok
  | case6 micros name path rest parsed hname hsame outcome warnings file number cause hresult ih =>
    exact ih h hok

lemma named_of_loadMicros {directory : String} {config : RenderConfig} {loaded : Micros}
    (hok : (loadMicros tree directory config registry).result = .ok loaded) :
    loaded.Named ∧ registry.Extends loaded.registry := by
  rw [loadMicros] at hok
  split at hok
  · cases hok
  · exact named_of_loadMicrosFrom (Micros.named_empty registry) hok

/-! ## Suites -/

namespace Suite

variable {systemFile microDirectory : String} {config : RenderConfig} {parsed : FileName}

-- As above, for the lemmas about suites.
attribute [local simp] load loadFiles

lemma load_of_fileName {cause : FileNameFault}
    (hname : FileName.parse ((Path.finalName? systemFile).getD "") = .error cause) :
    (load tree systemFile microDirectory config).result = .error (.fileName systemFile cause) := by
  rw [load, hname]

lemma load_of_mismatch (hname : FileName.parse ((Path.finalName? systemFile).getD "") = .ok parsed)
    (hother : parsed.config.agrees config = false) :
    (load tree systemFile microDirectory config).result
      = .error (.configMismatch systemFile config parsed.config) := by
  simp only [load, hname, hother, Bool.not_false, if_true]

lemma load_of_fault (hname : FileName.parse ((Path.finalName? systemFile).getD "") = .ok parsed)
    (hagrees : parsed.config.agrees config = true) {cause : DocumentFault}
    (hfault : (readDotFile tree systemFile .empty).result = .error cause) :
    (load tree systemFile microDirectory config).result = .error (.document cause) := by
  simp only [load, hname, hagrees, hfault, Bool.not_true, Bool.false_eq_true, if_false]

/-- **What loading a suite comes to** when its system graph is read: the micro benchmarks decide. -/
lemma load_of_micros (hname : FileName.parse ((Path.finalName? systemFile).getD "") = .ok parsed)
    (hagrees : parsed.config.agrees config = true)
    (hgraph : (readDotFile tree systemFile .empty).result = .ok g)
    {files : List (String × String)} (hfiles : dotFiles tree microDirectory = .ok files) :
    (load tree systemFile microDirectory config).result
      = (loadMicrosFrom tree config ⟨.empty, (readDotFile tree systemFile .empty).registry⟩
          files).result.map fun micros =>
            ⟨config, parsed.base, g, micros.graphs, micros.registry⟩ := by
  simp only [load, hname, hagrees, hgraph, loadMicros, hfiles, Bool.not_true, Bool.false_eq_true,
    if_false]

lemma load_of_directory (hname : FileName.parse ((Path.finalName? systemFile).getD "") = .ok parsed)
    (hagrees : parsed.config.agrees config = true)
    (hgraph : (readDotFile tree systemFile .empty).result = .ok g) {cause : DirectoryFault}
    (hfiles : dotFiles tree microDirectory = .error cause) :
    (load tree systemFile microDirectory config).result = .error (.directory cause) := by
  simp only [load, hname, hagrees, hgraph, loadMicros, hfiles, Bool.not_true, Bool.false_eq_true,
    if_false, Except.map]

/-! ### One suite after the other -/

lemma loadFiles_of_fileName {name : String} {cause : FileNameFault}
    (hname : FileName.parse name = .error cause) (rest : List (String × String)) :
    (loadFiles tree microDirectory ((name, path) :: rest)).result
      = (loadFiles tree microDirectory rest).result := by
  simp only [loadFiles, hname, Loaded.result_after]

lemma loadFiles_of_fault {name : String} {fault : LoadFault}
    (hname : FileName.parse name = .ok parsed)
    (hfault : (load tree path microDirectory parsed.config).result = .error fault)
    (hkind : ∀ cause, fault ≠ .directory cause) (rest : List (String × String)) :
    (loadFiles tree microDirectory ((name, path) :: rest)).result
      = (loadFiles tree microDirectory rest).result := by
  rw [loadFiles, hname]
  simp only [hfault]
  cases fault with
  | directory cause => exact absurd rfl (hkind cause)
  | fileName => exact Loaded.result_after _ _
  | configMismatch => exact Loaded.result_after _ _
  | document => exact Loaded.result_after _ _

/-- A directory that cannot be read ends the run. -/
lemma loadFiles_of_directory {name : String} {cause : DirectoryFault}
    (hname : FileName.parse name = .ok parsed)
    (hfault : (load tree path microDirectory parsed.config).result = .error (.directory cause))
    (rest : List (String × String)) :
    (loadFiles tree microDirectory ((name, path) :: rest)).result = .error cause := by
  rw [loadFiles, hname]
  simp only [hfault]

lemma loadFiles_of_ok {name : String} {suite : Suite}
    (hname : FileName.parse name = .ok parsed)
    (hok : (load tree path microDirectory parsed.config).result = .ok suite)
    (rest : List (String × String)) :
    (loadFiles tree microDirectory ((name, path) :: rest)).result
      = (loadFiles tree microDirectory rest).result.map (suite :: ·) := by
  rw [loadFiles, hname]
  simp only [hok, Loaded.result_after]

/-- **Loading a single system benchmark.** -/
lemma loadAll_of_single {systemDirectory name : String} {suite : Suite}
    (hsystem : dotFiles tree systemDirectory = .ok [(name, path)])
    (hname : FileName.parse name = .ok parsed)
    (hok : (load tree path microDirectory parsed.config).result = .ok suite) :
    (loadAll tree systemDirectory microDirectory).result = .ok [suite] := by
  rw [loadAll, hsystem]
  exact loadFiles_of_ok hname hok []

end Suite

namespace Suite

variable {systemFile microDirectory : String} {config : RenderConfig} {suite : Suite}

/-- **What a suite that was loaded is made of.** -/
lemma exists_of_load (hok : (load tree systemFile microDirectory config).result = .ok suite) :
    ∃ base systemGraph micros, (readDotFile tree systemFile .empty).result = .ok systemGraph ∧
      (loadMicros tree microDirectory config
        (readDotFile tree systemFile .empty).registry).result = .ok micros ∧
      suite = ⟨config, base, systemGraph, micros.graphs, micros.registry⟩ := by
  rw [load] at hok
  split at hok
  case h_1 => cases hok
  case h_2 name hname =>
    split_ifs at hok with hother
    simp only at hok
    split at hok
    case h_1 => cases hok
    case h_2 systemGraph hsystem =>
      cases hloaded : (loadMicros tree microDirectory config
          (readDotFile tree systemFile .empty).registry).result with
      | error fault =>
        rw [hloaded] at hok
        cases hok
      | ok micros =>
        rw [hloaded] at hok
        obtain rfl := Except.ok.inj hok
        exact ⟨name.base, systemGraph, micros, hsystem, rfl, rfl⟩

/-- **A suite is loaded with one registry.** -/
theorem builtWith_of_load
    (hok : (load tree systemFile microDirectory config).result = .ok suite) :
    suite.BuiltWith suite.registry := by
  obtain ⟨base, systemGraph, micros, hsystem, hmicros, rfl⟩ := exists_of_load hok
  obtain ⟨hnamed, hextends⟩ := named_of_loadMicros hmicros
  exact ⟨(namedBy_of_readDotFile hsystem).mono hextends, hnamed⟩

/-- **The micro benchmarks of a suite are named after files** with its configuration. -/
lemma exists_parse_of_load (hok : (load tree systemFile microDirectory config).result = .ok suite)
    {key : String} (hkey : key ∈ suite.micros.keys) :
    ∃ name, FileName.parse key = .ok name ∧ name.config.agrees suite.config = true := by
  obtain ⟨base, systemGraph, micros, -, hmicros, rfl⟩ := exists_of_load hok
  rw [loadMicros] at hmicros
  split at hmicros
  · cases hmicros
  · refine exists_parse_of_loadMicrosFrom (fun _ hnone => ?_) hmicros key hkey
    exact absurd hnone List.not_mem_nil

end Suite

end BenchCover
