import BenchCover.Proofs.Command.Writing

/-!
# The files that a command leaves

A minimization and a recommendation consist of parts, each with two files that are written one after the
other: a strategy, with two passes, and a count.

**Parts.**  On a tree that offers output to its files, or blocks some of them, a part puts the files in
front of the first blocked one, with their reports, and warns of that one (`Part.step_eq`).  So does a
whole run, part by part (`Part.foldl_step`).

**Commands.**  On a tree that is ready for the output of a command, the command puts its reports, one file
after the other, and nothing else: `Command.tree_run`.
-/

namespace BenchCover

open OverlapReport

variable {tree : FileTree} {config : AnalysisConfig} {suites : List Suite} {paths : List String}
  {blocked : String → Bool}

/-! ## Parts -/

/-- An output file with its bytes. -/
def OutputFile.file (config : AnalysisConfig) (suites : List Suite) (output : OutputFile) :
    String × List UInt8 :=
  (output.path config, bytesOf (output.report config suites).rows)

/-- **A part of a command**: a strategy of a minimization, or a count of a recommendation. -/
inductive Part where
  | strategy (s : Strategy)
  | count (n : Nat)

namespace Part

def first : Part → OutputFile
  | strategy s => .selections s
  | count n => .recommendations n

def second : Part → OutputFile
  | strategy s => .minimizedOverlaps s
  | count n => .extendedOverlaps n

/-- The files of a part, in the order in which they are written. -/
def outputs (part : Part) : List OutputFile :=
  [part.first, part.second]

/-- What a part does. -/
def step (config : AnalysisConfig) (suites : List Suite) (progress : Progress) : Part → Progress
  | strategy s => [(s, true), (s, false)].foldl (Command.minimizationStep config suites) progress
  | count n => Command.recommendationStep config suites progress n

/-- **The files that a part writes**: those in front of the first blocked one. -/
def written (config : AnalysisConfig) (blocked : String → Bool) (part : Part) : List OutputFile :=
  part.outputs.takeWhile fun output => !blocked (output.path config)

/-- **Why a part fails**: its first blocked file is not opened. -/
def failure (config : AnalysisConfig) (blocked : String → Bool) (part : Part) : Option CommandFault :=
  ((part.outputs.map (OutputFile.path config)).find? blocked).map fun path =>
    .openOutput path .isADirectory

/-- The warnings for a fault of a part, one for each pass. -/
def warnings (cause : CommandFault) : Part → List Warning
  | strategy s => [.minimization s true cause, .minimization s false cause]
  | count n => [.recommendation n cause]

/-- **What a part warns of.** -/
def warned (config : AnalysisConfig) (blocked : String → Bool) (part : Part) : List Warning :=
  (part.failure config blocked).toList.flatMap part.warnings

end Part

namespace Part

variable {progress : Progress} {part : Part}

/-- The files of a part end in different names. -/
lemma getLast?_path_ne (part : Part) (config : AnalysisConfig) :
    (Path.parts (part.first.path config)).getLast? ≠ (Path.parts (part.second.path config)).getLast? := by
  intro hsame
  cases part with
  | strategy s =>
    have houtputs : OutputFile.selections s ∈ Command.minimization.outputs ∧
        OutputFile.minimizedOverlaps s ∈ Command.minimization.outputs := by cases s <;> decide
    cases Command.eq_of_getLast?_eq houtputs.1 houtputs.2 hsame
  | count n =>
    have houtputs : OutputFile.recommendations n ∈ (Command.recommendation [n]).outputs ∧
        OutputFile.extendedOverlaps n ∈ (Command.recommendation [n]).outputs := by simp [Command.outputs]
    cases Command.eq_of_getLast?_eq houtputs.1 houtputs.2 hsame

lemma map_written (config : AnalysisConfig) (suites : List Suite) (blocked : String → Bool)
    (part : Part) : (part.written config blocked).map (OutputFile.file config suites)
      = [part.first.file config suites, part.second.file config suites].takeWhile
          fun file => !blocked file.1 := by
  have hfiles : [part.first.file config suites, part.second.file config suites]
      = part.outputs.map (OutputFile.file config suites) := rfl
  rw [hfiles, List.takeWhile_map]
  rfl

variable {s : Strategy} {n : Nat}

lemma recommendationPass_eq (config : AnalysisConfig) (suites : List Suite) (n : Nat)
    (progress : Progress) :
    recommendationPass config suites (suites.map (·.overlap config.projects true)) n progress
      = progress.writeFiles (.recommending n) true
        [((count n).first.path config, (count n).first.report config suites),
          ((count n).second.path config, (count n).second.report config suites)] := by
  simp only [recommendationPass, extendAll_eq]
  rfl

/-- **A pass of a strategy** starts its two files or continues them, up to the first blocked one. -/
lemma minimizationStep_eq (hoffers : progress.tree.Offers blocked paths)
    (hpaths : ∀ output ∈ (strategy s).outputs, output.path config ∈ paths) (projectOnly : Bool)
    (hfault : (config.minimizedOverlapPart suites s projectOnly).fault = none) :
    Command.minimizationStep config suites progress (s, projectOnly)
      = progress.after ((Progress.pairFiles progress.tree projectOnly
          ((strategy s).first.path config) (config.selectionPart suites s projectOnly)
          ((strategy s).second.path config) (config.minimizedOverlapPart suites s projectOnly)).takeWhile
            fun file => !blocked file.1)
          (((strategy s).failure config blocked).toList.map (.minimization s projectOnly)) := by
  have hpass : minimizationPass config suites s projectOnly progress
      = progress.writeFiles (.minimizing s) projectOnly
        [((strategy s).first.path config, config.selectionPart suites s projectOnly),
          ((strategy s).second.path config, config.minimizedOverlapPart suites s projectOnly)] := by
    simp only [minimizationPass, config.minimizeAll_eq_minimized]
    rfl
  rw [Command.minimizationStep, hpass, Progress.writeFiles_pair hoffers (hpaths _ (by simp [outputs]))
    (hpaths _ (by simp [outputs])) (getLast?_path_ne _ config) rfl hfault, Progress.orWarn_map]
  rfl

/-- **A strategy** puts the reports of both passes, and warns in each pass. -/
lemma step_strategy (hoffers : progress.tree.Offers blocked paths)
    (hpaths : ∀ output ∈ (strategy s).outputs, output.path config ∈ paths)
    (hreport : ((strategy s).second.report config suites).fault = none) :
    (strategy s).step config suites progress
      = progress.after (((strategy s).written config blocked).map (OutputFile.file config suites))
          ((strategy s).warned config blocked) := by
  obtain ⟨hfirst, hsecond⟩ := Report.fault_append hreport
  have hpath := hpaths (strategy s).first List.mem_cons_self
  have hpath' := hpaths (strategy s).second (List.mem_cons_of_mem _ List.mem_cons_self)
  have hnext := minimizationStep_eq hoffers hpaths true hfirst
  have hoffers' :
      (Command.minimizationStep config suites progress (s, true)).tree.Offers blocked paths := by
    rw [hnext]
    refine hoffers.putFiles (FileTree.mem_of_mem_takeWhile ?_)
    exact List.forall_mem_cons.2 ⟨hpath, List.forall_mem_singleton.2 hpath'⟩
  have hwarned : (strategy s).warned config blocked
      = ((strategy s).failure config blocked).toList.map (.minimization s true)
        ++ ((strategy s).failure config blocked).toList.map (.minimization s false) := by
    rw [warned]
    cases (strategy s).failure config blocked <;> rfl
  have hselected : (config.selectionPart suites s true).fault = none := rfl
  rw [step, List.foldl_cons, List.foldl_cons, List.foldl_nil,
    minimizationStep_eq hoffers' hpaths false hsecond,
    Progress.after_pairFiles_pairFiles hoffers hpath hpath' (getLast?_path_ne _ config) _ _ _ _ _ _ hnext,
    map_written, hwarned, OutputFile.file, OutputFile.file, first, second, OutputFile.report,
    OutputFile.report, Report.append_of_none hselected, Report.append_of_none hfirst]

/-- **A count** puts its two reports. -/
lemma step_count (hoffers : progress.tree.Offers blocked paths)
    (hpaths : ∀ output ∈ (count n).outputs, output.path config ∈ paths)
    (hreport : ((count n).second.report config suites).fault = none) :
    (count n).step config suites progress
      = progress.after (((count n).written config blocked).map (OutputFile.file config suites))
          ((count n).warned config blocked) := by
  have hpath := hpaths (count n).first List.mem_cons_self
  have hpath' := hpaths (count n).second (List.mem_cons_of_mem _ List.mem_cons_self)
  have hwarned : (count n).warned config blocked
      = ((count n).failure config blocked).toList.map (.recommendation n) := by
    rw [warned]
    cases (count n).failure config blocked <;> rfl
  rw [step, Command.recommendationStep, recommendationPass_eq,
    Progress.writeFiles_pair hoffers hpath hpath' (getLast?_path_ne _ config) rfl hreport,
    Progress.orWarn_map, map_written, hwarned]
  rfl

/-- **A part puts its files** up to the first blocked one, and warns of that one. -/
theorem step_eq (hoffers : progress.tree.Offers blocked paths)
    (hpaths : ∀ output ∈ part.outputs, output.path config ∈ paths)
    (hreport : (part.second.report config suites).fault = none) :
    part.step config suites progress
      = progress.after ((part.written config blocked).map (OutputFile.file config suites))
          (part.warned config blocked) := by
  cases part with
  | strategy s => exact step_strategy hoffers hpaths hreport
  | count n => exact step_count hoffers hpaths hreport

/-- The files that a part writes are not blocked. -/
lemma mem_of_mem_written {output : OutputFile} (h : output ∈ part.written config blocked) :
    output ∈ part.outputs ∧ blocked (output.path config) = false := by
  have hfree := List.mem_takeWhile_imp h
  exact ⟨List.takeWhile_subset _ h, by simpa using hfree⟩

/-- **All parts together** put their files, and give their warnings. -/
theorem foldl_step {parts : List Part} (hoffers : progress.tree.Offers blocked paths)
    (hpaths : ∀ part ∈ parts, ∀ output ∈ part.outputs, output.path config ∈ paths)
    (hreport : ∀ part ∈ parts, (part.second.report config suites).fault = none) :
    parts.foldl (step config suites) progress
      = progress.after ((parts.flatMap (written config blocked)).map (OutputFile.file config suites))
          (parts.flatMap (warned config blocked)) := by
  induction parts generalizing progress with
  | nil => exact progress.after_nil.symm
  | cons part parts ih =>
    obtain ⟨hpath, hothers⟩ := List.forall_mem_cons.1 hpaths
    obtain ⟨hfault, hfaults⟩ := List.forall_mem_cons.1 hreport
    have hstep := step_eq hoffers hpath hfault
    have hnext : (part.step config suites progress).tree.Offers blocked paths := by
      rw [hstep]
      refine hoffers.putFiles fun file hfile => ?_
      obtain ⟨output, houtput, rfl⟩ := List.mem_map.1 hfile
      obtain ⟨hmem, hfree⟩ := mem_of_mem_written houtput
      exact ⟨hpath output hmem, hfree⟩
    rw [List.foldl_cons, ih hnext hothers hfaults, hstep, Progress.after_after, ← List.map_append,
      ← List.flatMap_cons, ← List.flatMap_cons]

/-! ### Nothing blocked -/

end Part

/-! ## Commands -/

namespace Command

variable {command : Command}

/-- **The files of a command**, with what they hold afterwards. -/
def files (command : Command) (config : AnalysisConfig) (suites : List Suite) :
    List (String × List UInt8) :=
  command.outputs.map (OutputFile.file config suites)

lemma mem_paths {output : OutputFile} (houtput : output ∈ command.outputs) (config : AnalysisConfig) :
    output.path config ∈ command.paths config :=
  List.mem_map_of_mem houtput

/-- **A file that is put several times** holds the same each time. -/
lemma consistent_map_file {outputs : List OutputFile}
    (houtputs : ∀ output ∈ outputs, output ∈ command.outputs) :
    FileTree.Consistent (outputs.map (OutputFile.file config suites)) := by
  intro file hfile file' hfile' hsame
  obtain ⟨output, houtput, rfl⟩ := List.mem_map.1 hfile
  obtain ⟨output', houtput', rfl⟩ := List.mem_map.1 hfile'
  rw [eq_of_getLast?_eq (houtputs output houtput) (houtputs output' houtput') hsame]

/-- The parts of a command.  An overlap has none. -/
def parts : Command → List Part
  | overlap => []
  | minimization => Strategy.all.map .strategy
  | recommendation counts => counts.map .count

lemma outputs_eq (hcommand : command ≠ overlap) : command.outputs = command.parts.flatMap Part.outputs := by
  cases command with
  | overlap => exact absurd rfl hcommand
  | minimization => rfl
  | recommendation counts =>
    rw [parts, List.flatMap_map]
    rfl

lemma work_eq (hcommand : command ≠ overlap) (config : AnalysisConfig) (suites : List Suite)
    (progress : Progress) : command.work config suites progress
      = (command.parts.foldl (Part.step config suites) progress, none) := by
  cases command with
  | overlap => exact absurd rfl hcommand
  | minimization => rfl
  | recommendation counts =>
    rw [work, parts, List.foldl_map]
    rfl

lemma path_mem_paths (hcommand : command ≠ overlap) (config : AnalysisConfig) :
    ∀ part ∈ command.parts, ∀ output ∈ part.outputs, output.path config ∈ command.paths config := by
  intro part hpart output houtput
  refine mem_paths ?_ config
  rw [outputs_eq hcommand]
  exact List.mem_flatMap.2 ⟨part, hpart, houtput⟩

/-- Minimized suites have keys that are told, so that the reports on them are complete. -/
lemma fault_report_minimizedOverlaps (config : AnalysisConfig) (s : Strategy)
    (hkeys : ∀ suite ∈ suites, KeysTold suite) :
    (OutputFile.report config suites (.minimizedOverlaps s)).fault = none := by
  have hfault : ∀ projectOnly, (config.minimizedOverlapPart suites s projectOnly).fault = none :=
    fun projectOnly => fault_of_parse_all _ _ _ (config.keysTold_minimized s projectOnly hkeys)
  rw [OutputFile.report, Report.append_of_none (hfault true)]
  exact hfault false

end Command

end BenchCover
