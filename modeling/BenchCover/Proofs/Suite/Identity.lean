import BenchCover.Proofs.Suite.Alike
import BenchCover.Proofs.Suite.Extension
import BenchCover.Proofs.Suite.LoadAll

/-!
# Functions are told by their ids

All analyses of a suite compare functions by their ids.  They may, because the graphs of a suite are
read with one registry, and nothing that is done with a suite later brings in a function that was not
read: minimizing keeps some of the micro benchmarks (`exists_kept_of_minimize`), and extending adds parts
of the system graph (`exists_micros_extend`).

The copies of a suite are what comes out of these two steps, in whatever order (`Copy`).  Each step
keeps the system graph, the registry, and that the functions are named by it (`Copy.kept`).  Hence every
copy has what loading establishes: `ids_of_load`.
-/

namespace BenchCover

namespace Dot.Document

/-- What the faults call a document does not matter for its graph. -/
lemma readFrom_path {path path' : String} {number : ℕ} {reading : Reading} {lines : Lines}
    {g : CallGraph} (hok : (readFrom path number reading lines).result = .ok g) :
    (readFrom path' number reading lines).result = .ok g := by
  fun_induction readFrom path number reading lines with
  | case1 number reading => exact hok
  | case2 => cases hok
  | case3 => cases hok
  | case4 number reading line rest next hline ih =>
    rw [readFrom, hline]
    exact ih hok

end Dot.Document

namespace Suite

variable {suite copy : Suite} {registry : Registry} {f : Function} {minimized : Minimized}

/-! ## Steps -/

/-- Micro benchmarks are kept only if there are some under all of the keys. -/
lemma mem_keys_of_microsOf {keys : List String} {kept : SortedMap String CallGraph}
    (hok : suite.microsOf keys = .ok kept) : ∀ key ∈ keys, key ∈ suite.micros.keys := by
  rw [microsOf] at hok
  generalize (SortedMap.empty : SortedMap String CallGraph) = start at hok
  induction keys generalizing start with
  | nil => exact fun _ hnone => absurd hnone List.not_mem_nil
  | cons key rest ih =>
    rw [List.foldlM_cons] at hok
    cases hmicro : suite.micros.lookup key with
    | none =>
      rw [hmicro] at hok
      cases hok
    | some micro =>
      rw [hmicro] at hok
      exact List.forall_mem_cons.2 ⟨SortedMap.mem_keys_iff.2 ⟨micro, hmicro⟩, ih _ hok⟩

/-- **Minimizing keeps some of the micro benchmarks**, as they are. -/
lemma exists_kept_of_minimize {overlap : SuiteOverlap} {strategy : Strategy} {exclusion : Exclusion}
    (hok : suite.minimize overlap strategy exclusion = .ok minimized) :
    ∃ kept, minimized.suite = suite.withMicros kept ∧
      ∀ key micro, kept.lookup key = some micro → suite.micros.lookup key = some micro := by
  rw [minimize] at hok
  cases hkept : suite.microsOf ((suite.select overlap strategy exclusion).map (·.key)) with
  | error fault =>
    rw [hkept] at hok
    cases hok
  | ok kept =>
    rw [hkept] at hok
    obtain rfl := Except.ok.inj hok
    obtain ⟨kept', hkept', hlookup⟩ := suite.exists_microsOf _ (mem_keys_of_microsOf hkept)
    obtain rfl := Except.ok.inj (hkept.symm.trans hkept')
    refine ⟨kept, rfl, fun key micro hmicro => ?_⟩
    rw [hlookup] at hmicro
    exact (Option.ite_none_right_eq_some.1 hmicro).2

/-- **Extending adds parts of the system graph**, under some keys. -/
lemma exists_micros_extend (suite : Suite) (projects : ProjectPrefixes) (overlap : SuiteOverlap)
    (recommender : Recommender) (count : ℕ) :
    ∃ micros, (suite.extend projects overlap recommender count).suite = suite.withMicros micros ∧
      ∀ key micro, micros.lookup key = some micro → suite.micros.lookup key = some micro ∨
        ∃ start, micro = suite.systemGraph.reachableSubgraph start := by
  refine ⟨_, foldl_addRecommended suite (recommender projects suite overlap count) suite, ?_⟩
  intro key micro
  generalize recommender projects suite overlap count = picks
  generalize suite.micros = micros
  induction picks generalizing micros with
  | nil => exact Or.inl
  | cons r rest ih =>
    intro hmicro
    rw [List.foldl_cons] at hmicro
    rcases ih _ hmicro with hold | hpart
    · rw [SortedMap.lookup_insert] at hold
      split_ifs at hold with hsame
      · exact Or.inr ⟨r.function.id, (Option.some.inj hold).symm⟩
      · exact Or.inl hold
    · exact Or.inr hpart

/-! ## Copies -/

/-- **The copies of a suite**: what minimizing and extending it makes of it, in whatever order. -/
inductive Copy (suite : Suite) : Suite → Prop
  | same : Copy suite suite
  | minimize {copy : Suite} {minimized : Minimized} (h : Copy suite copy) (overlap : SuiteOverlap)
      (strategy : Strategy) (exclusion : Exclusion)
      (hok : copy.minimize overlap strategy exclusion = .ok minimized) : Copy suite minimized.suite
  | extend {copy : Suite} (h : Copy suite copy) (projects : ProjectPrefixes) (overlap : SuiteOverlap)
      (recommender : Recommender) (count : ℕ) :
      Copy suite (copy.extend projects overlap recommender count).suite

lemma BuiltWith.withMicros (h : suite.BuiltWith registry) {micros : SortedMap String CallGraph}
    (hmicros : ∀ key micro, micros.lookup key = some micro → micro.NamedBy registry) :
    (suite.withMicros micros).BuiltWith registry :=
  ⟨h.system, hmicros⟩

/-- **What a copy has from the suite**: the system graph, the registry, and functions that are named by
it. -/
structure Copy.Kept (suite copy : Suite) : Prop where
  systemGraph_eq : copy.systemGraph = suite.systemGraph
  registry_eq : copy.registry = suite.registry
  built : copy.BuiltWith suite.registry

lemma Copy.kept (hbuilt : suite.BuiltWith suite.registry) (h : suite.Copy copy) :
    Copy.Kept suite copy := by
  induction h with
  | same => exact ⟨rfl, rfl, hbuilt⟩
  | minimize _ overlap strategy exclusion hok ih =>
    obtain ⟨kept, hsuite, hkept⟩ := exists_kept_of_minimize hok
    rw [hsuite]
    exact ⟨ih.systemGraph_eq, ih.registry_eq,
      ih.built.withMicros fun key micro hlookup => ih.built.micros key micro (hkept key micro hlookup)⟩
  | extend _ projects overlap recommender count ih =>
    obtain ⟨micros, hsuite, hmicros⟩ := exists_micros_extend _ projects overlap recommender count
    rw [hsuite]
    refine ⟨ih.systemGraph_eq, ih.registry_eq, ih.built.withMicros fun key micro hlookup => ?_⟩
    rcases hmicros key micro hlookup with hold | ⟨start, rfl⟩
    · exact ih.built.micros key micro hold
    · -- a new micro benchmark has functions of the system graph only
      exact SameSystem.namedBy_reachableSubgraph ih.built.system start

/-! ## The system graph -/

/-- The graph in a file depends on what is in the file. -/
lemma readDotFile_eq_ok_of_read {tree tree' : FileTree} {path path' : String}
    (hread : tree'.read path' = tree.read path) {g : CallGraph}
    (hok : (readDotFile tree path registry).result = .ok g) :
    (readDotFile tree' path' registry).result = .ok g := by
  rw [readDotFile] at hok ⊢
  rw [hread]
  cases hbytes : tree.read path with
  | error cause =>
    rw [hbytes] at hok
    cases hok
  | ok bytes =>
    rw [hbytes] at hok
    exact Dot.Document.readFrom_path hok

lemma systemGraph_eq_of_read {tree tree' : FileTree}
    {systemFile systemFile' microDirectory microDirectory' : String} {config config' : RenderConfig}
    {suite' : Suite} (hok : (load tree systemFile microDirectory config).result = .ok suite)
    (hok' : (load tree' systemFile' microDirectory' config').result = .ok suite')
    (hread : tree'.read systemFile' = tree.read systemFile) :
    suite'.systemGraph = suite.systemGraph := by
  obtain ⟨base, systemGraph, micros, hgraph, -, rfl⟩ := exists_of_load hok
  obtain ⟨base', systemGraph', micros', hgraph', -, rfl⟩ := exists_of_load hok'
  exact Except.ok.inj (hgraph'.symm.trans (readDotFile_eq_ok_of_read hread hgraph))

/-! ## Functions -/

/-- **The functions of a suite**: those of the system benchmark and those of the micro benchmarks. -/
def HasFunction (suite : Suite) (f : Function) : Prop :=
  f ∈ suite.systemGraph.functions ∨
    ∃ key micro, suite.micros.lookup key = some micro ∧ f ∈ micro.functions

lemma BuiltWith.name_eq (h : suite.BuiltWith registry) (hf : suite.HasFunction f) :
    registry.name f.id = .ok f.name := by
  rcases hf with hf | ⟨key, micro, hmicro, hf⟩
  · exact h.system f hf
  · exact h.micros key micro hmicro f hf

/-- **Functions are told by their ids**, in a suite that was loaded and in all copies of it, whatever micro
benchmarks were passed over when it was loaded.

* The registry has every function under its id, and its id under its name; so functions anywhere have
  the same id if and only if they have the same name.
* The system graph, with the ids in it, depends on nothing but what is in the system file. -/
theorem ids_of_load {tree : FileTree} {systemFile microDirectory : String} {config : RenderConfig}
    (hok : (load tree systemFile microDirectory config).result = .ok suite) :
    (∀ copy, suite.Copy copy → copy.systemGraph = suite.systemGraph ∧
        copy.registry = suite.registry ∧
        ∀ f, copy.HasFunction f → copy.registry.name f.id = .ok f.name ∧
          copy.registry.lookup? f.name = some f.id) ∧
      (∀ copy copy', suite.Copy copy → suite.Copy copy' → ∀ f f', copy.HasFunction f →
        copy'.HasFunction f' → (f.id = f'.id ↔ f.name = f'.name)) ∧
      ∀ tree' systemFile' microDirectory' config' suite',
        tree'.read systemFile' = tree.read systemFile →
        (load tree' systemFile' microDirectory' config').result = .ok suite' →
        suite'.systemGraph = suite.systemGraph := by
  have hbuilt := builtWith_of_load hok
  have hname : ∀ copy, suite.Copy copy → ∀ f, copy.HasFunction f →
      suite.registry.name f.id = .ok f.name :=
    fun copy hcopy f hf => (hcopy.kept hbuilt).built.name_eq hf
  refine ⟨fun copy hcopy => ?_, fun copy copy' hcopy hcopy' f f' hf hf' => ?_, ?_⟩
  · have hkept := hcopy.kept hbuilt
    refine ⟨hkept.systemGraph_eq, hkept.registry_eq, fun f hf => ?_⟩
    rw [hkept.registry_eq]
    exact ⟨hname copy hcopy f hf, Registry.lookup?_of_name (hname copy hcopy f hf)⟩
  · have hf := hname copy hcopy f hf
    have hf' := hname copy' hcopy' f' hf'
    constructor
    · intro hid
      rw [hid, hf'] at hf
      exact (Except.ok.inj hf).symm
    · intro hsame
      exact Registry.id_unique hf (hsame ▸ hf')
  · intro tree' systemFile' microDirectory' config' suite' hread hok'
    exact systemGraph_eq_of_read hok hok' hread

/-- Behind the half document, the function of the micro benchmark has the third id, and it keeps it when
the suite is extended. -/
theorem ids_of_load_half : ∃ suite,
    (load Half.tree "s/a__1__0__0.dot" "m" SmallTree.config).result = .ok suite ∧
      ∀ f, (suite.extend ⟨["p/"]⟩ (suite.overlap ⟨["p/"]⟩ true) recommend 1).suite.HasFunction f →
        (f.id = 2 ↔ f.name = "p/trace") := by
  obtain ⟨suite, hload, hid⟩ := Half.load_tree
  obtain ⟨-, hregistry, hfunctions⟩ := (ids_of_load hload).1 _
    (.extend .same ⟨["p/"]⟩ (suite.overlap ⟨["p/"]⟩ true) recommend 1)
  refine ⟨suite, hload, fun f hf => ?_⟩
  obtain ⟨hname, hlookup⟩ := hfunctions f hf
  rw [hregistry] at hname hlookup
  constructor
  · intro hthird
    rw [hthird, Registry.lookup?_eq_some_iff.1 hid] at hname
    exact (Except.ok.inj hname).symm.trans (by decide)
  · intro htrace
    rw [htrace, hid] at hlookup
    exact (Option.some.inj hlookup).symm

end Suite

end BenchCover
