import BenchCover.Proofs.Command.Beside
import BenchCover.Proofs.Suite.LoadAll

/-!
# Files that are passed over are harmless

A DOT file that loading passes over may be added to the micro directory or to the system directory
of an analysis, and all reports stay the same, byte for byte: `sameBut_of_passedOver`.  A micro
benchmark that is refused at one of its lines leaves names behind, which shifts the ids of functions
that are met later, but no report tells of these ids.

The place of the new file must not be where a symbolic link leads.  A link to nothing is no file, and
it becomes one when the new file is put there, under a name that may not be passed over:
`overlapCommand_dangling`.
-/

namespace BenchCover

open Dot

/-- **A DOT file that is passed over** when it is added to a directory of an analysis: in the micro
directory for every configuration of a system benchmark, in the system directory as a system
benchmark. -/
inductive AddedPassedOver (tree : FileTree) (config : AnalysisConfig) (system micro : Location)
    (name : String) (bytes : List UInt8) : Location → Prop
  | micro : (∀ files, dotFiles tree config.systemDirectory = .ok files → ∀ file ∈ files, ∀ parsed,
      FileName.parse file.1 = .ok parsed →
      MicroPassedOver bytes parsed.config (name, Path.join config.microDirectory name)) →
      AddedPassedOver tree config system micro name bytes micro
  | system : Suite.SystemPassedOver bytes (name, Path.join config.systemDirectory name) →
      AddedPassedOver tree config system micro name bytes system

/-- **Files that are passed over are harmless.**  Let a DOT file be added under a new name to the
micro directory or to the system directory of an analysis, which are different, where no symbolic
link leads to it, and let it be passed over.  Then the arguments of a command tell the same
directories as without it, and every command comes to the same and leaves the same files, but for the
one that was added. -/
theorem sameBut_of_passedOver (config : AnalysisConfig) (tree : FileTree)
    (system micro directory : Location) (name : String) (bytes : List UInt8)
    (hproper : tree.Proper)
    (hsystem : tree.resolve config.systemDirectory = .ok (.present system .directory))
    (hmicro : tree.resolve config.microDirectory = .ok (.present micro .directory))
    (hdifferent : system ≠ micro)
    (hname : Path.IsName name) (hdot : dotExtension.toList <:+ name.toList)
    (hnew : tree.get? (directory ++ [name]) = none)
    (hunlinked : tree.Unlinked (directory ++ [name]))
    (hpassed : AddedPassedOver tree config system micro name bytes directory) :
    let place := directory ++ [name]
    let tree' := tree.set place (.file bytes)
    (∀ arguments, AnalysisConfig.resolve tree arguments = .ok config →
        AnalysisConfig.resolve tree' arguments = .ok config) ∧
      (overlapCommand config tree).SameBut place (overlapCommand config tree') ∧
      (minimizationCommand config tree).SameBut place (minimizationCommand config tree') ∧
      ∀ counts, (recommendationCommand config counts tree).SameBut place
        (recommendationCommand config counts tree') := by
  intro place tree'
  have hbeside : FileTree.Beside place bytes tree tree' :=
    ⟨FileTree.putsFile_set (Or.inl hnew) bytes, hnew, hproper.grounded, hunlinked⟩
  have hplace : ∀ other file, other ++ [file] = place → other = directory ∧ file = name := by
    intro other file hsame
    obtain ⟨hother, hfile⟩ := List.append_inj' hsame rfl
    exact ⟨hother, List.singleton_inj.1 hfile⟩
  obtain ⟨suites, suites', hsuites, hsuites', hsame⟩ := Suite.loadAll_beside hbeside hproper
    (fun other file hfile => by
      obtain ⟨-, rfl⟩ := hplace other file hfile
      exact hname) hsystem hmicro
    (fun file hfile => by
      obtain ⟨rfl, rfl⟩ := hplace system file hfile
      cases hpassed with
      | micro => exact absurd rfl hdifferent
      | system hrefused => exact hrefused)
    fun file hfile => by
      obtain ⟨rfl, rfl⟩ := hplace micro file hfile
      cases hpassed with
      | micro hconfigs => exact hconfigs
      | system => exact absurd rfl hdifferent
  have hlength := hsame.length_eq
  refine ⟨fun _ => AnalysisConfig.resolve_beside hbeside, ?_, ?_, fun counts => ?_⟩
  · refine sameBut_withSuites hbeside hsuites hsuites' hlength .overlap fun progress progress' h => ?_
    rw [overlapReports_eq hsame, overlapReports_eq hsame]
    exact h.writeFile (outputBeside_csv hdot config "struct_node_overlap") _ _
  · refine sameBut_withSuites hbeside hsuites hsuites' hlength .minimization
      fun progress progress' h => ⟨?_, rfl⟩
    dsimp only
    refine Progress.Beside.foldl (fun pass h => ?_) minimizationPasses h
    rw [minimizationPass_eq hsame]
    exact Progress.Beside.warnIf _ (h.minimizationPass hdot config suites' pass.1 pass.2)
  · refine sameBut_withSuites hbeside hsuites hsuites' hlength .recommendation
      fun progress progress' h => ⟨?_, rfl⟩
    dsimp only
    refine Progress.Beside.foldl (fun count h => ?_) counts h
    rw [recommendationPass_eq hsame]
    exact Progress.Beside.warnIf _ (h.recommendationPass hdot config suites' _ count)

/-! ## A small analysis -/

/-- An analysis of directories in the root. -/
def smallConfig : AnalysisConfig := ⟨⟨["p/"]⟩, "s", "m", "o", "s"⟩

open Half in
/-- The half document is passed over.  It shifts the id of a function of the micro benchmark, and no
report changes. -/
theorem sameBut_of_passedOver_half :
    let place := ["m"] ++ ["a__1__0__0.dot"]
    let tree' := tracingTree.set place (.file halfDocument)
    (∃ suite, (Suite.loadAll tracingTree "s" "m").result = .ok [suite] ∧
      suite.registry.lookup? "p/trace" = some 1) ∧
    (∃ suite, (Suite.loadAll tree' "s" "m").result = .ok [suite] ∧
      suite.registry.lookup? "p/trace" = some 2) ∧
    (overlapCommand smallConfig tracingTree).SameBut place (overlapCommand smallConfig tree') ∧
    (minimizationCommand smallConfig tracingTree).SameBut place
      (minimizationCommand smallConfig tree') ∧
    ∀ counts, (recommendationCommand smallConfig counts tracingTree).SameBut place
      (recommendationCommand smallConfig counts tree') := by
  have hpassed : AddedPassedOver tracingTree smallConfig ["s"] ["m"] "a__1__0__0.dot"
      halfDocument ["m"] := by
    refine .micro fun files _ file _ parsed _ => ?_
    rw [MicroPassedOver, SmallTree.parse_a, show smallConfig.microDirectory = "m" from rfl]
    exact Or.inr ⟨known ["p/load"], read_half.1⟩
  have hunlinked : tracingTree.Unlinked (["m"] ++ ["a__1__0__0.dot"]) :=
    FileTree.unlinked_of_entries (by simp [tracingTree, smallTree]) _
  exact ⟨loadAll_tracingTree, loadAll_tree,
    (sameBut_of_passedOver smallConfig tracingTree ["s"] ["m"] ["m"] "a__1__0__0.dot" halfDocument
      (by decide) holds_tracingTree.system holds_tracingTree.micro (by decide) (by decide)
      (by decide) rfl hunlinked hpassed).2⟩

/-! ## A link to nothing -/

/-- A micro directory with a link to nothing under the name of a micro benchmark. -/
def dangling : FileTree :=
  smallTree [] (.link "zz.dot")

namespace Dangling

open SmallTree

/-- The link leads to an empty document. -/
def tree : FileTree :=
  dangling.set (["m"] ++ ["zz.dot"]) (.file [])

lemma putsFile : FileTree.PutsFile ["m", "zz.dot"] [] dangling tree :=
  FileTree.putsFile_set (Or.inl rfl) []

lemma holds_dangling : Holds dangling [] := holds_smallTree

lemma holds_tree : Holds tree [] :=
  holds_dangling.of_putsFile putsFile rfl (by decide)

lemma resolve_b : dangling.resolve "m/b__1__0__0.dot" = .ok (.vacant ["m", "zz.dot"]) :=
  FileTree.walk_eq_ok_iff.2 ⟨by decide, .into ⟨rfl, by decide, by decide⟩ rfl nofun
    (.link ⟨rfl, by decide, by decide⟩ rfl (.vacant ⟨rfl, by decide, by decide⟩ rfl))⟩

lemma resolve_zz : dangling.resolve "m/zz.dot" = .ok (.vacant ["m", "zz.dot"]) :=
  FileTree.walk_eq_ok_iff.2 ⟨by decide, .into ⟨rfl, by decide, by decide⟩ rfl nofun
    (.vacant ⟨rfl, by decide, by decide⟩ rfl)⟩

lemma walk_output : dangling.walk .writing (smallConfig.outputPath overlapFile)
    = .ok (.vacant ["o", overlapFile]) :=
  FileTree.walk_eq_ok_iff.2 ⟨by decide, .into ⟨rfl, by decide, by decide⟩ rfl nofun
    (.vacant ⟨rfl, by decide, by decide⟩ rfl)⟩

lemma parse_zz : FileName.parse "zz.dot" = .error (.tooFewParts "zz.dot" 1) := rfl

/-! ### What is loaded -/

def suite (micros : SortedMap String CallGraph) : Suite :=
  ⟨config, "a", .empty, micros, .empty⟩

/-- Without the file there is no micro benchmark. -/
lemma loadAll_dangling : (Suite.loadAll dangling "s" "m").result = .ok [suite .empty] := by
  suffices hfiles : dotFiles dangling "m" = .ok [] from
    holds_dangling.loadAll (holds_dangling.load rfl hfiles rfl)
  have hjoin : Path.join "m" "b__1__0__0.dot" = "m/b__1__0__0.dot" := rfl
  have hfile : dangling.isFile "m/b__1__0__0.dot" = false := by rw [FileTree.isFile, resolve_b]
  have hnames : dangling.namesAt ["m"] = ["b__1__0__0.dot"] := rfl
  rw [dotFiles_of_perm holds_dangling.micro _ List.Pairwise.nil, List.map_nil]
  simp only [hnames, List.filter_cons, List.filter_nil, hjoin, hfile]
  decide

/-- With the file, the link is a micro benchmark. -/
lemma loadAll_tree : (Suite.loadAll tree "s" "m").result
    = .ok [suite (SortedMap.empty.insert "b__1__0__0.dot" .empty)] := by
  have hlinked : tree.resolve "m/b__1__0__0.dot"
      = .ok (.present ["m", "zz.dot"] (.file [])) := putsFile.walk_ok resolve_b
  have hplain : tree.resolve "m/zz.dot" = .ok (.present ["m", "zz.dot"] (.file [])) :=
    putsFile.walk_ok resolve_zz
  have hfiles : dotFiles tree "m"
      = .ok [("b__1__0__0.dot", "m/b__1__0__0.dot"), ("zz.dot", "m/zz.dot")] := by
    have hjoin : Path.join "m" "b__1__0__0.dot" = "m/b__1__0__0.dot" := rfl
    have hjoin' : Path.join "m" "zz.dot" = "m/zz.dot" := rfl
    have hfile : tree.isFile "m/b__1__0__0.dot" = true := by rw [FileTree.isFile, hlinked]
    have hfile' : tree.isFile "m/zz.dot" = true := by rw [FileTree.isFile, hplain]
    have hnames : tree.namesAt ["m"] = ["b__1__0__0.dot", "zz.dot"] := rfl
    have hsorted : ["b__1__0__0.dot", "zz.dot"].Pairwise (· ≤ ·) := by decide
    rw [dotFiles_of_perm holds_tree.micro _ hsorted]
    · simp only [List.map_cons, List.map_nil, hjoin, hjoin']
    · simp only [hnames, List.filter_cons, List.filter_nil, hjoin, hjoin', hfile, hfile']
      decide
  have hread : readDotFile tree "m/b__1__0__0.dot" .empty = ⟨.ok .empty, .empty, []⟩ :=
    readDotFile_of_resolve hlinked .empty
  have hmicros : (loadMicrosFrom tree config ⟨.empty, .empty⟩
      [("b__1__0__0.dot", "m/b__1__0__0.dot"), ("zz.dot", "m/zz.dot")]).result
        = .ok ⟨SortedMap.empty.insert "b__1__0__0.dot" .empty, .empty⟩ := by
    rw [loadMicrosFrom_of_ok parse_b agrees_config (by rw [hread]),
      loadMicrosFrom_of_fileName parse_zz, hread]
    rfl
  exact holds_tree.loadAll (holds_tree.load rfl hfiles hmicros)

end Dangling

open Dangling in
/-- **Where a link leads to the new file, it is not harmless**, although its own name tells no
configuration: with it, the report has rows of a micro benchmark that is not there without it. -/
theorem overlapCommand_dangling :
    dangling.Proper ∧
      dangling.resolve smallConfig.systemDirectory = .ok (.present ["s"] .directory) ∧
      dangling.resolve smallConfig.microDirectory = .ok (.present ["m"] .directory) ∧
      Path.IsName "zz.dot" ∧ dotExtension.toList <:+ "zz.dot".toList ∧
      dangling.get? (["m"] ++ ["zz.dot"]) = none ∧
      AddedPassedOver dangling smallConfig ["s"] ["m"] "zz.dot" [] ["m"] ∧
      (overlapCommand smallConfig dangling).tree.get? ["o", overlapFile]
        ≠ (overlapCommand smallConfig (dangling.set (["m"] ++ ["zz.dot"]) (.file []))).tree.get?
            ["o", overlapFile] := by
  have hpassed : AddedPassedOver dangling smallConfig ["s"] ["m"] "zz.dot" [] ["m"] := by
    refine .micro fun _ _ _ _ _ _ => ?_
    rw [MicroPassedOver, parse_zz]
    trivial
  refine ⟨by decide, holds_dangling.system, holds_dangling.micro, by decide, by decide, rfl,
    hpassed, ?_⟩
  have hopen : dangling.openOutput (smallConfig.outputPath overlapFile) true
      = .ok (dangling.set ["o", overlapFile] (.file []), ["o", overlapFile]) := by
    rw [FileTree.openOutput, walk_output]
    rfl
  have hopen' : tree.openOutput (smallConfig.outputPath overlapFile) true
      = .ok (tree.set ["o", overlapFile] (.file []), ["o", overlapFile]) := by
    rw [FileTree.openOutput, putsFile.walk_ok walk_output]
    rfl
  have hload : (Suite.loadAll dangling smallConfig.systemDirectory
      smallConfig.microDirectory).result = .ok [suite .empty] := loadAll_dangling
  have hload' : (Suite.loadAll tree smallConfig.systemDirectory
      smallConfig.microDirectory).result
        = .ok [suite (SortedMap.empty.insert "b__1__0__0.dot" .empty)] := loadAll_tree
  rw [← Dangling.tree]
  simp only [overlapCommand, withSuites, hload, hload', Progress.writeFile, hopen, hopen']
  decide +kernel

end BenchCover
