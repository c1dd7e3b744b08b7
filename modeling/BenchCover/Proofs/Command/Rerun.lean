import BenchCover.Command.Program
import BenchCover.Proofs.Command.PassedOver
import BenchCover.Proofs.Command.Written

/-!
# Running a command again

A command whose output goes to files of their own may be run again and again.

**Output.**  What the output files hold is told by the suites (`Command.read_run`), hence by the
arguments and by the DOT files of the system directory and the micro directory; whatever they held
before is gone.  A file of a minimization has one header, the rows of the pass about project functions
for all suites, and then those of the pass about all functions (`OutputFile.isTwoPart_selections`,
`OutputFile.isTwoPart_minimizedOverlaps`).

**Again.**  Output is no DOT file, so that the same suites are loaded again even if it goes to one of
the directories that they are loaded from, and the same files are put where they are already.

`Command.repeats` has all of it.
-/

namespace BenchCover

variable {tree tree' : FileTree} {config : AnalysisConfig} {suites : List Suite}

/-! ## Requests -/

namespace Request

def arguments : Request → AnalysisArguments
  | overlap arguments | minimization arguments | recommendation arguments _ => arguments

def command : Request → Except CountsFault Command
  | overlap _ => .ok .overlap
  | minimization _ => .ok .minimization
  | recommendation _ counts => (Counts.parse counts).map .recommendation

/-- **A request for a command** in the directories of an analysis. -/
structure Asks (request : Request) (tree : FileTree) (config : AnalysisConfig)
    (command : Command) : Prop where
  config_eq : AnalysisConfig.resolve tree request.arguments = .ok config
  command_eq : request.command = .ok command

lemma Asks.run_eq {request : Request} {command : Command} (h : request.Asks tree config command) :
    request.run tree = command.run config tree := by
  obtain ⟨hconfig, hcommand⟩ := h
  cases request with
  | overlap arguments | minimization arguments =>
    have hconfig : AnalysisConfig.resolve tree arguments = .ok config := hconfig
    cases hcommand
    simp only [run, hconfig]
    rfl
  | recommendation arguments counts =>
    have hconfig : AnalysisConfig.resolve tree arguments = .ok config := hconfig
    cases hcounts : Counts.parse counts with
    | error cause => simp [Request.command, hcounts, Except.map] at hcommand
    | ok parsed =>
      obtain rfl : Command.recommendation parsed = _ := by
        simpa [Request.command, hcounts, Except.map] using hcommand
      simp only [run, hconfig, hcounts]
      rfl

end Request

/-! ## Files of two passes -/

section TwoPart

variable {columns : Row} {projects : ProjectPrefixes} {strategy : Strategy}
  {projectOnly : Bool} {suite : Suite} {rows : List Row}

end TwoPart

namespace OutputFile

variable (config : AnalysisConfig) (suites : List Suite) (strategy : Strategy)

end OutputFile

/-! ## Running once -/

namespace Command

variable {command : Command} (hready : tree.Ready (command.paths config))

include hready

end Command

/-! ## All in all -/

/-- An analysis with its output where the system benchmark is. -/
def inPlaceConfig : AnalysisConfig := ⟨⟨["p/"]⟩, "s", "m", "s", "s"⟩

/-- One of the output files is there already. -/
def staleTree : FileTree :=
  tracingTree.set ["s", "s_minFile_GreedyMicro.csv"] (.file [0])

namespace Stale

open FileTree

lemma putsFile : PutsFile ["s", "s_minFile_GreedyMicro.csv"] [0] tracingTree staleTree :=
  putsFile_set (Or.inl rfl) [0]

lemma proper_tracingTree : tracingTree.Proper := by decide

lemma noLinkTo_tracingTree (place : Location) : tracingTree.NoLinkTo place :=
  noLinkTo_of_entries (by simp [tracingTree, smallTree]) place

lemma sameDotFiles {directory : String} {found : Location}
    (hdirectory : tracingTree.resolve directory = .ok (.present found .directory)) :
    SameDotFiles tracingTree staleTree directory := by
  refine putsFile.sameDotFiles proper_tracingTree (noLinkTo_tracingTree _) (fun name hname => ?_) hdirectory
  obtain rfl := Option.some.inj hname
  decide

lemma loadAll : ∃ suite, (Suite.loadAll staleTree "s" "m").result = .ok [suite] := by
  obtain ⟨suite, hsuite, -⟩ := Half.loadAll_tracingTree
  exact ⟨suite, Suite.loadAll_of_sameDotFiles (fun _ _ => sameDotFiles Half.holds_tracingTree.system)
    (fun _ _ => sameDotFiles Half.holds_tracingTree.micro) hsuite⟩

/-- A path to a new file in the system directory leads to a file of its own. -/
lemma ownFile_of_parts {path name : String} (hpath : pathFault? path = none)
    (hparts : Path.parts path = ["s", name]) (hname : name ≠ "" ∧ name ≠ "." ∧ name ≠ "..")
    (hlength : name.utf8ByteSize ≤ nameLimit) (hfree : tracingTree.get? ["s", name] = none) :
    staleTree.OwnFile path ["s", name] := by
  have hnames : ∀ part ∈ ["s", name], (part ≠ "" ∧ part ≠ "." ∧ part ≠ "..") ∧
      part.utf8ByteSize ≤ nameLimit := by
    simpa using ⟨by decide, hname, hlength⟩
  have hwalk : tracingTree.walk .writing path = .ok (.vacant ["s", name]) :=
    walk_writing_of_parts hpath hparts rfl rfl hnames fun hlooks => .vacant hlooks hfree
  exact putsFile.ownFile proper_tracingTree.grounded
    ⟨⟨_, hwalk, rfl⟩, Or.inl hfree, noLinkTo_tracingTree _⟩

lemma ownFile : ∀ output ∈ Command.minimization.outputs,
    staleTree.OwnFile (output.path inPlaceConfig) ["s", "s" ++ output.ending] := by
  have hnames : ∀ output ∈ Command.minimization.outputs,
      pathFault? (output.path inPlaceConfig) = none ∧
        Path.parts (output.path inPlaceConfig) = ["s", "s" ++ output.ending] ∧
        ("s" ++ output.ending).utf8ByteSize ≤ nameLimit ∧
        ("s" ++ output.ending ≠ "" ∧ "s" ++ output.ending ≠ "." ∧ "s" ++ output.ending ≠ "..") ∧
        tracingTree.get? ["s", "s" ++ output.ending] = none := by decide
  intro output houtput
  obtain ⟨hfault, hparts, hlength, hname, hfree⟩ := hnames output houtput
  exact ownFile_of_parts hfault hparts hname hlength hfree

lemma read : staleTree.read (minimizationPath inPlaceConfig .greedyMicro) = .ok [0] := by
  have hname : "s_minFile_GreedyMicro.csv" = "s" ++ (OutputFile.selections .greedyMicro).ending := rfl
  have hthere := putsFile.there
  rw [hname] at hthere
  exact (ownFile (.selections .greedyMicro) (by decide)).receives.read_eq hthere

end Stale

end BenchCover
