import BenchCover.Proofs.Command.PassedOver
import BenchCover.Proofs.Command.Written

/-!
# Output that is blocked

A minimization or a recommendation goes on where a directory stands at some of its output paths.  Each
of its parts, a strategy or a count, has two files.

* If the first one is blocked, the part leaves both as they are.
* If only the second one is, the first is complete.
* A part with neither of them blocked leaves the files that it leaves if nothing is blocked at all.

The command succeeds, tells the files that were written, and warns once for each pass that failed:
`Command.stays_local`.
-/

namespace BenchCover

variable {tree : FileTree} {config : AnalysisConfig} {suites : List Suite} {blocked : String → Bool}

/-! ## Parts -/

namespace Part

variable {part part' : Part} {output : OutputFile}

lemma eq_of_mem_outputs (h : output ∈ part.outputs) (h' : output ∈ part'.outputs) : part = part' := by
  cases part <;> cases part' <;>
    simp only [outputs, first, second, List.mem_cons, List.not_mem_nil, or_false] at h h' <;>
    rcases h with rfl | rfl <;> simp_all

lemma written_of_first (h : blocked (part.first.path config) = true) :
    part.written config blocked = [] := by
  simp [written, outputs, h]

lemma written_of_neither (h : blocked (part.first.path config) = false)
    (h' : blocked (part.second.path config) = false) :
    part.written config blocked = [part.first, part.second] := by
  simp [written, outputs, h, h']

end Part

/-! ## Noted files -/

/-- Files that are noted one after the other are each noted once, in the order in which they came
first. -/
lemma foldl_noted (paths : List String) : paths.foldl noted [] = paths.eraseDups := by
  induction paths using List.reverseRecOn with
  | nil => rfl
  | append_singleton paths path ih =>
    rw [List.foldl_concat, ih, noted, eraseDups_concat]

/-! ## Commands -/

namespace Command

open OverlapReport

variable {command : Command}

/-- **The keys of all micro benchmarks** in the reports of a command are file names. -/
structure TellsKeys (command : Command) (config : AnalysisConfig) (suites : List Suite) : Prop where
  loaded : ∀ suite ∈ suites, KeysTold suite
  extended : ∀ n, .count n ∈ command.parts → ∀ small ∈ config.extended suites n, KeysTold small.suite

lemma TellsKeys.fault_report (h : command.TellsKeys config suites) :
    ∀ part ∈ command.parts, (part.second.report config suites).fault = none := by
  intro part hpart
  cases part with
  | strategy s => exact fault_report_minimizedOverlaps config s h.loaded
  | count n =>
    refine fault_of_parse_all _ _ _ fun suite hsuite => ?_
    obtain ⟨small, hsmall, rfl⟩ := List.mem_map.1 hsuite
    exact h.extended n hpart small hsmall

/-- **The files that a command writes**, as often as it writes them. -/
def written (command : Command) (config : AnalysisConfig) (blocked : String → Bool) : List OutputFile :=
  command.parts.flatMap (Part.written config blocked)

/-- **What a command comes to** where some output is blocked. -/
theorem run_eq_of_offers (hcommand : command ≠ .overlap)
    (hoffers : tree.Offers blocked (command.paths config))
    (hsuites : (Suite.loadAll tree config.systemDirectory config.microDirectory).result = .ok suites)
    (hkeys : command.TellsKeys config suites) :
    command.run config tree =
      { result := .ok ⟨command.analysis, config, suites.length,
          ((command.written config blocked).map (OutputFile.path config)).eraseDups⟩
        warnings := (begun config tree).warnings ++ command.parts.flatMap (Part.warned config blocked)
        tree := tree.putFiles ((command.written config blocked).map (OutputFile.file config suites)) } := by
  have hbegun : (begun config tree).tree.Offers blocked (command.paths config) := hoffers
  have hwork := Part.foldl_step hbegun (path_mem_paths hcommand config) hkeys.fault_report
  have hfiles : (((command.written config blocked).map (OutputFile.file config suites)).map
      (·.1)).foldl noted []
        = ((command.written config blocked).map (OutputFile.path config)).eraseDups := by
    rw [List.map_map, foldl_noted]
    rfl
  rw [command.run_of_ok hsuites, work_eq hcommand, hwork, ← hfiles]
  rfl

/-! ### Which files are written -/

section Written

variable {part : Part} {output : OutputFile}

lemma mem_outputs_of_mem_written (hcommand : command ≠ .overlap)
    (h : output ∈ command.written config blocked) :
    output ∈ command.outputs ∧ blocked (output.path config) = false := by
  obtain ⟨part, hpart, houtput⟩ := List.mem_flatMap.1 h
  obtain ⟨hmem, hfree⟩ := Part.mem_of_mem_written houtput
  rw [outputs_eq hcommand]
  exact ⟨List.mem_flatMap.2 ⟨part, hpart, hmem⟩, hfree⟩

lemma mem_outputs_of_part (hcommand : command ≠ .overlap) (hpart : part ∈ command.parts)
    (houtput : output ∈ part.outputs) : output ∈ command.outputs := by
  rw [outputs_eq hcommand]
  exact List.mem_flatMap.2 ⟨part, hpart, houtput⟩

lemma mem_written_of_part (hpart : part ∈ command.parts)
    (houtput : output ∈ part.written config blocked) : output ∈ command.written config blocked :=
  List.mem_flatMap.2 ⟨part, hpart, houtput⟩

/-- The files of a part are written by that part, if at all. -/
lemma notMem_written (command : Command) (houtput : output ∈ part.outputs)
    (h : output ∉ part.written config blocked) : output ∉ command.written config blocked := by
  intro hwritten
  obtain ⟨other, -, hother⟩ := List.mem_flatMap.1 hwritten
  obtain rfl := Part.eq_of_mem_outputs houtput (Part.mem_of_mem_written hother).1
  exact h hother

lemma notMem_written_of_first (command : Command) (hfirst : blocked (part.first.path config) = true)
    (houtput : output ∈ part.outputs) : output ∉ command.written config blocked := by
  refine command.notMem_written houtput ?_
  rw [Part.written_of_first hfirst]
  exact List.not_mem_nil

lemma second_notMem_written (command : Command) (hsecond : blocked (part.second.path config) = true) :
    part.second ∉ command.written config blocked := by
  refine command.notMem_written (List.mem_cons_of_mem _ List.mem_cons_self) fun hmem => ?_
  have hfree := (Part.mem_of_mem_written hmem).2
  exact Bool.false_ne_true (hfree.symm.trans hsecond)

lemma first_mem_written (hpart : part ∈ command.parts)
    (hfirst : blocked (part.first.path config) = false) :
    part.first ∈ command.written config blocked := by
  refine mem_written_of_part hpart ?_
  rw [Part.written, Part.outputs, List.takeWhile_cons_of_pos (by simpa using hfirst)]
  exact List.mem_cons_self

lemma mem_written_of_neither (hpart : part ∈ command.parts)
    (hfirst : blocked (part.first.path config) = false)
    (hsecond : blocked (part.second.path config) = false) (houtput : output ∈ part.outputs) :
    output ∈ command.written config blocked := by
  refine mem_written_of_part hpart ?_
  rwa [Part.written_of_neither hfirst hsecond]

lemma file_mem_paths (hcommand : command ≠ .overlap) (config : AnalysisConfig) (suites : List Suite)
    (blocked : String → Bool) :
    ∀ file ∈ (command.written config blocked).map (OutputFile.file config suites),
      file.1 ∈ command.paths config ∧ blocked file.1 = false := by
  intro file hfile
  obtain ⟨output, houtput, rfl⟩ := List.mem_map.1 hfile
  obtain ⟨hmem, hfree⟩ := mem_outputs_of_mem_written hcommand houtput
  exact ⟨mem_paths hmem config, hfree⟩

end Written

/-! ### What becomes of the files -/

section Files

variable (hcommand : command ≠ .overlap) (hoffers : tree.Offers blocked (command.paths config))
  (hsuites : (Suite.loadAll tree config.systemDirectory config.microDirectory).result = .ok suites)
  (hkeys : command.TellsKeys config suites) {output : OutputFile}

include hcommand hoffers hsuites hkeys

/-- **A file that is written** is complete. -/
lemma read_of_mem_written (houtput : output ∈ command.written config blocked) :
    (command.run config tree).tree.read (output.path config)
      = .ok (bytesOf (output.report config suites).rows) := by
  have hfiles := file_mem_paths hcommand config suites blocked
  obtain ⟨hmem, hfree⟩ := mem_outputs_of_mem_written hcommand houtput
  obtain ⟨place, hreceives⟩ := hoffers.receives _ (mem_paths hmem config) hfree
  have hthere := hoffers.get?_putFiles hfiles
    (consistent_map_file fun _ h => (mem_outputs_of_mem_written hcommand h).1)
    (List.mem_map_of_mem houtput) hreceives
  rw [run_eq_of_offers hcommand hoffers hsuites hkeys]
  exact (hoffers.receives_putFiles hfiles hreceives).read_eq hthere

/-- **A file that is not written** is neither created nor changed. -/
lemma walk_of_notMem_written (hmem : output ∈ command.outputs)
    (houtput : output ∉ command.written config blocked) :
    (command.run config tree).tree.walk .writing (output.path config)
      = tree.walk .writing (output.path config) := by
  have hpath := mem_paths hmem config
  have hother : ∀ target, tree.walk .writing (output.path config) = .ok target →
      ∀ file ∈ (command.written config blocked).map (OutputFile.file config suites), ∀ place,
        tree.Receives file.1 place → target.location ≠ place := by
    rintro target hwalk file hfile place hreceives rfl
    obtain ⟨written, hwritten, rfl⟩ := List.mem_map.1 hfile
    obtain ⟨hmem', -⟩ := mem_outputs_of_mem_written hcommand hwritten
    -- two files at one place have one name, so this one would be written
    have hsame : tree.Receives (output.path config) target.location :=
      ⟨⟨target, hwalk, rfl⟩, hreceives.free⟩
    have hnames := hoffers.apart _ hpath _ (mem_paths hmem' config) _ hsame hreceives
    exact houtput (eq_of_getLast?_eq hmem hmem' hnames ▸ hwritten)
  obtain ⟨target, hwalk⟩ := hoffers.exists_walk hpath
  rw [run_eq_of_offers hcommand hoffers hsuites hkeys, hwalk]
  exact hoffers.walk_putFiles_of_ne (file_mem_paths hcommand config suites blocked) hwalk
    (hother target hwalk)

/-- **What a part leaves that is not blocked** is what it leaves where nothing is blocked. -/
lemma read_eq_of_mem_written {tree' : FileTree}
    (hoffers' : tree'.Offers (fun _ => false) (command.paths config))
    (hsuites' : (Suite.loadAll tree' config.systemDirectory config.microDirectory).result = .ok suites)
    (houtput : output ∈ command.written config blocked) :
    (command.run config tree').tree.read (output.path config)
      = (command.run config tree).tree.read (output.path config) := by
  have hmem := (mem_outputs_of_mem_written hcommand houtput).1
  rw [outputs_eq hcommand] at hmem
  obtain ⟨part, hpart, hmem⟩ := List.mem_flatMap.1 hmem
  have houtput' : output ∈ command.written config (fun _ => false) :=
    mem_written_of_neither hpart rfl rfl hmem
  rw [read_of_mem_written hcommand hoffers hsuites hkeys houtput,
    read_of_mem_written hcommand hoffers' hsuites' hkeys houtput']

end Files

/-! ## All in all -/

/-- **Failures stay local**: what a command comes to where a directory stands at some of its output
paths. -/
structure StaysLocal (command : Command) (config : AnalysisConfig) (tree : FileTree)
    (blocked : String → Bool) (suites : List Suite) : Prop where
  /-- The command succeeds.  It tells the files that it writes, each once, in the order in which they are
  first written. -/
  succeeds : (command.run config tree).result = .ok
    { analysis := command.analysis
      config
      configs := suites.length
      files := ((command.written config blocked).map (OutputFile.path config)).eraseDups }
  /-- Files that are told are complete, and all other output files stay as they are. -/
  told : ∀ output ∈ command.outputs,
    (output ∈ command.written config blocked → (command.run config tree).tree.read (output.path config)
      = .ok (bytesOf (output.report config suites).rows)) ∧
    (output ∉ command.written config blocked →
      (command.run config tree).tree.walk .writing (output.path config)
        = tree.walk .writing (output.path config))
  /-- A part with no file blocked leaves what it leaves in any tree with the same suites where nothing is
  blocked. -/
  neither_blocked : ∀ part ∈ command.parts, blocked (part.first.path config) = false →
    blocked (part.second.path config) = false → ∀ output ∈ part.outputs,
      output ∈ command.written config blocked ∧
      ∀ tree', tree'.Offers (fun _ => false) (command.paths config) →
        (Suite.loadAll tree' config.systemDirectory config.microDirectory).result = .ok suites →
          (command.run config tree').tree.read (output.path config)
            = (command.run config tree).tree.read (output.path config)
  /-- A part whose first file is blocked writes neither file. -/
  first_blocked : ∀ part ∈ command.parts, blocked (part.first.path config) = true →
    ∀ output ∈ part.outputs, output ∉ command.written config blocked ∧
      (command.run config tree).tree.walk .writing (output.path config)
        = tree.walk .writing (output.path config)
  /-- A part whose second file only is blocked writes the first one. -/
  second_blocked : ∀ part ∈ command.parts, blocked (part.first.path config) = false →
    blocked (part.second.path config) = true →
      (part.first ∈ command.written config blocked ∧
        (command.run config tree).tree.read (part.first.path config)
          = .ok (bytesOf (part.first.report config suites).rows)) ∧
      part.second ∉ command.written config blocked ∧
        (command.run config tree).tree.walk .writing (part.second.path config)
          = tree.walk .writing (part.second.path config)
  /-- The first file of a strategy has the rows of both passes. -/
  both_passes : ∀ s, .strategy s ∈ command.parts → blocked (minimizationPath config s) = false →
    (command.run config tree).tree.read (minimizationPath config s)
      = .ok (bytesOf ((config.selectionPart suites s true).rows
        ++ (config.selectionPart suites s false).rows))
  /-- No other place changes. -/
  elsewhere : ∀ place,
    (∀ output ∈ command.written config blocked, ¬ tree.Receives (output.path config) place) →
      (command.run config tree).tree.get? place = tree.get? place
  /-- There is one warning for each pass of a strategy that fails, and one for each count. -/
  warned : (command.run config tree).warnings
    = (Suite.loadAll tree config.systemDirectory config.microDirectory).warnings.map .load
      ++ command.parts.flatMap (Part.warned config blocked)

/-- **Failures stay local.**  Let a directory stand at some of the output paths of a minimization or a
recommendation, and let the others take output, each name in a file of its own.  If suites are loaded and
all keys are told, the command succeeds, and each part fails for itself or leaves its files as if nothing
were blocked. -/
theorem stays_local (command : Command) (config : AnalysisConfig) (tree : FileTree)
    (blocked : String → Bool) (suites : List Suite) (hcommand : command ≠ .overlap)
    (hoffers : tree.Offers blocked (command.paths config))
    (hsuites : (Suite.loadAll tree config.systemDirectory config.microDirectory).result = .ok suites)
    (hkeys : command.TellsKeys config suites) :
    command.StaysLocal config tree blocked suites := by
  have hrun := run_eq_of_offers hcommand hoffers hsuites hkeys
  have hread : ∀ output ∈ command.written config blocked,
      (command.run config tree).tree.read (output.path config)
        = .ok (bytesOf (output.report config suites).rows) :=
    fun _ => read_of_mem_written hcommand hoffers hsuites hkeys
  have hwalk : ∀ output ∈ command.outputs, output ∉ command.written config blocked →
      (command.run config tree).tree.walk .writing (output.path config)
        = tree.walk .writing (output.path config) :=
    fun _ => walk_of_notMem_written hcommand hoffers hsuites hkeys
  constructor
  case succeeds => rw [hrun]
  case told => exact fun output houtput => ⟨hread output, hwalk output houtput⟩
  case neither_blocked =>
    intro part hpart hfirst hsecond output houtput
    have hmem := mem_written_of_neither hpart hfirst hsecond houtput
    exact ⟨hmem, fun _ hoffers' hsuites' =>
      read_eq_of_mem_written hcommand hoffers hsuites hkeys hoffers' hsuites' hmem⟩
  case first_blocked =>
    intro part hpart hfirst output houtput
    have hnot := command.notMem_written_of_first hfirst houtput
    exact ⟨hnot, hwalk output (mem_outputs_of_part hcommand hpart houtput) hnot⟩
  case second_blocked =>
    intro part hpart hfirst hsecond
    have hmem := first_mem_written hpart hfirst
    have hnot := command.second_notMem_written hsecond
    have houtput := mem_outputs_of_part hcommand hpart (List.mem_cons_of_mem _ List.mem_cons_self)
    exact ⟨⟨hmem, hread _ hmem⟩, hnot, hwalk _ houtput hnot⟩
  case both_passes =>
    intro s hpart hfree
    have hmem : OutputFile.selections s ∈ command.written config blocked := first_mem_written hpart hfree
    have hpath : minimizationPath config s = (OutputFile.selections s).path config := rfl
    rw [hpath, hread _ hmem]
    rfl
  case elsewhere =>
    intro place hplace
    rw [hrun]
    refine hoffers.get?_putFiles_of_ne (file_mem_paths hcommand config suites blocked) ?_
    rintro file hfile other hreceives rfl
    obtain ⟨output, houtput, rfl⟩ := List.mem_map.1 hfile
    exact hplace output houtput hreceives
  case warned => rw [hrun]; rfl

end Command

/-! ## A small analysis with a blocked file -/

/-- A directory stands where the first strategy has its first file. -/
def blockedTree : FileTree :=
  tracingTree.set ["o", "s_minFile_GreedyMicro.csv"] .directory

namespace BlockedTree

open FileTree

def firstFile (path : String) : Bool :=
  path == minimizationPath smallConfig .greedyMicro

lemma proper : blockedTree.Proper := by decide

lemma loadAll : ∃ suite, (Suite.loadAll blockedTree "s" "m").result = .ok [suite] := by
  have hholds : SmallTree.Holds blockedTree systemDocument :=
    SmallTree.holds_of_get? rfl rfl rfl rfl rfl
  obtain ⟨suite, hsuite, -⟩ := Half.loadAll_of_holds hholds rfl
    (SmallTree.resolve_b_of_get? rfl rfl rfl nofun)
  exact ⟨suite, hsuite⟩

/-- The files of a minimization are in the output directory, and only one of them is there. -/
lemma outputs : ∀ output ∈ Command.minimization.outputs,
    pathFault? (output.path smallConfig) = none ∧
      Path.parts (output.path smallConfig) = ["o", "s" ++ output.ending] ∧
      (∀ part ∈ ["o", "s" ++ output.ending], (part ≠ "" ∧ part ≠ "." ∧ part ≠ "..") ∧
        part.utf8ByteSize ≤ nameLimit) ∧
      blockedTree.get? ["o", "s" ++ output.ending]
        = if firstFile (output.path smallConfig) then some .directory else none := by decide

lemma walk_output {output : OutputFile} (houtput : output ∈ Command.minimization.outputs) :
    blockedTree.walk .writing (output.path smallConfig)
      = .ok (if firstFile (output.path smallConfig)
          then .present ["o", "s" ++ output.ending] .directory
          else .vacant ["o", "s" ++ output.ending]) := by
  obtain ⟨hfault, hparts, hnames, hthere⟩ := outputs output houtput
  refine walk_writing_of_parts hfault hparts rfl rfl hnames fun hlooks => ?_
  split_ifs at hthere ⊢
  · exact .into hlooks hthere nofun (.here hthere)
  · exact .vacant hlooks hthere

lemma receives {output : OutputFile} (houtput : output ∈ Command.minimization.outputs)
    (hfree : firstFile (output.path smallConfig) = false) :
    blockedTree.Receives (output.path smallConfig) ["o", "s" ++ output.ending] := by
  obtain ⟨-, -, -, hthere⟩ := outputs output houtput
  have hwalk := walk_output houtput
  simp only [hfree, Bool.false_eq_true, if_false] at hthere hwalk
  exact ⟨⟨_, hwalk, rfl⟩, Or.inl hthere⟩

/-- A path that takes output tells its place. -/
lemma parts_of_receives {path : String} {place : Location}
    (hpath : path ∈ Command.minimization.paths smallConfig)
    (hreceives : blockedTree.Receives path place) : Path.parts path = place := by
  obtain ⟨output, houtput, rfl⟩ := List.mem_map.1 hpath
  have hfree : firstFile (output.path smallConfig) = false := by
    by_contra hblocked
    refine hreceives.not_blocks ⟨["o", "s" ++ output.ending], ?_⟩
    rw [walk_output houtput, if_pos (by simpa using hblocked)]
  rw [(outputs output houtput).2.1, hreceives.unique (receives houtput hfree)]

lemma offers : blockedTree.Offers firstFile (Command.minimization.paths smallConfig) where
  blocks := by
    intro path hpath hblocked
    obtain ⟨output, houtput, rfl⟩ := List.mem_map.1 hpath
    exact ⟨["o", "s" ++ output.ending], by rw [walk_output houtput, if_pos hblocked]⟩
  receives := by
    intro path hpath hfree
    obtain ⟨output, houtput, rfl⟩ := List.mem_map.1 hpath
    exact ⟨_, receives houtput hfree⟩
  apart := by
    intro path hpath path' hpath' place hreceives hreceives'
    rw [parts_of_receives hpath hreceives, parts_of_receives hpath' hreceives']

end BlockedTree

open BlockedTree in
/-- A minimization goes on where its first file is blocked. -/
theorem Command.stays_local_blockedTree :
    ∃ suite, (Suite.loadAll blockedTree smallConfig.systemDirectory
        smallConfig.microDirectory).result = .ok [suite] ∧
      blockedTree.Blocks (minimizationPath smallConfig .greedyMicro) ∧
      Command.minimization.StaysLocal smallConfig blockedTree firstFile [suite] := by
  obtain ⟨suite, hsuite⟩ := loadAll
  have hkeys : Command.minimization.TellsKeys smallConfig [suite] :=
    ⟨OverlapReport.keysTold_of_loadAll proper hsuite, fun n hpart => by simp [Command.parts] at hpart⟩
  have hblocks : blockedTree.Blocks (minimizationPath smallConfig .greedyMicro) :=
    offers.blocks _ (List.mem_map.2 ⟨.selections .greedyMicro, by decide, rfl⟩) (by simp [firstFile])
  exact ⟨suite, hsuite, hblocks, Command.stays_local .minimization smallConfig blockedTree firstFile
    [suite] (by rintro ⟨⟩) offers hsuite hkeys⟩

end BenchCover
