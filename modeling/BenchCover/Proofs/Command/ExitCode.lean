import BenchCover.Proofs.Command.Counts
import BenchCover.Proofs.Command.Rerun

/-!
# Exit codes

A command line that can be read asks for a command in some directories.  The directories are checked
first, in the order system, micro, out, then the counts, from left to right, and only then is anything
loaded.

**Checks.**  The first path that leads to no directory is what is wrong with the directories
(`AnalysisConfig.resolve_eq_error_iff`), and the first wrong piece what is wrong with the counts
(`Counts.parse_eq_error_iff`).  A run ends at a check or goes on to the command (`Request.gets_run`).

**Commands.**  A command fails with 1 (`Command.exitCode_of_error`), and if it cannot load suites it
leaves all files as they are.

So the exit code tells which check has failed, if any, and where one has failed no file is touched:
`runProgram_exits`.
-/

namespace BenchCover

open Decimal

variable {tree : FileTree} {role : DirectoryRole} {config : AnalysisConfig}

/-! ## Directories -/

namespace FileTree

/-- A path that leads to something. -/
def Exists (tree : FileTree) (path : String) : Prop :=
  ∃ place entry, tree.resolve path = .ok (.present place entry)

/-- A path that leads to a directory. -/
def IsDirectory (tree : FileTree) (path : String) : Prop :=
  ∃ place, tree.resolve path = .ok (.present place .directory)

end FileTree

/-- **Why a path is refused** where a directory is asked for. -/
inductive ArgumentFault.Tells (tree : FileTree) (role : DirectoryRole) (path : String) :
    ArgumentFault → Prop
  | missing : ¬ tree.Exists path → Tells tree role path (.missing role path)
  | notADirectory : tree.Exists path → ¬ tree.IsDirectory path →
      Tells tree role path (.notADirectory role path)

section Directory

variable {path : String} {fault : ArgumentFault}

lemma exists_resolveDirectory (role : DirectoryRole) (h : tree.IsDirectory path) :
    ∃ directory, resolveDirectory tree role path = .ok directory := by
  obtain ⟨place, hresolve⟩ := h
  rw [resolveDirectory, hresolve]
  exact ⟨_, rfl⟩

/-- **A path is refused** if it leads nowhere, or to something else than a directory. -/
lemma resolveDirectory_eq_error_iff : resolveDirectory tree role path = .error fault ↔
    ArgumentFault.Tells tree role path fault := by
  constructor
  · rw [resolveDirectory]
    split
    · rintro ⟨⟩
    · next place entry hentry hresolve =>
      rintro ⟨⟩
      refine .notADirectory ⟨place, entry, hresolve⟩ ?_
      rintro ⟨other, hother⟩
      cases hresolve.symm.trans hother
      exact hentry rfl
    · next hmissing hother =>
      rintro ⟨⟩
      refine .missing ?_
      rintro ⟨place, entry, hresolve⟩
      exact hother place entry hresolve
  · rintro (hmissing | ⟨⟨place, entry, hresolve⟩, hnot⟩)
    · rw [resolveDirectory]
      split
      · next place hresolve => exact absurd ⟨place, _, hresolve⟩ hmissing
      · next place entry _ hresolve => exact absurd ⟨place, entry, hresolve⟩ hmissing
      · rfl
    · have hentry : entry ≠ .directory := by
        rintro rfl
        exact hnot ⟨place, hresolve⟩
      rw [resolveDirectory, hresolve]
      cases entry <;> first | rfl | exact absurd rfl hentry

lemma ArgumentFault.exists_tells (role : DirectoryRole) (h : ¬ tree.IsDirectory path) :
    ∃ fault, ArgumentFault.Tells tree role path fault := by
  by_cases hexists : tree.Exists path
  · exact ⟨_, .notADirectory hexists h⟩
  · exact ⟨_, .missing hexists⟩

end Directory

namespace AnalysisArguments

def path (arguments : AnalysisArguments) : DirectoryRole → String
  | .system => arguments.systemDirectory
  | .micro => arguments.microDirectory
  | .out => arguments.outDirectory

/-- **The first directory that is wrong**: the paths that are checked before it lead to directories. -/
inductive FirstWrong (arguments : AnalysisArguments) (tree : FileTree) : DirectoryRole → Prop
  | system : ¬ tree.IsDirectory (arguments.path .system) → FirstWrong arguments tree .system
  | micro : tree.IsDirectory (arguments.path .system) →
      ¬ tree.IsDirectory (arguments.path .micro) → FirstWrong arguments tree .micro
  | out : tree.IsDirectory (arguments.path .system) → tree.IsDirectory (arguments.path .micro) →
      ¬ tree.IsDirectory (arguments.path .out) → FirstWrong arguments tree .out

variable {arguments : AnalysisArguments}

lemma FirstWrong.wrong (h : arguments.FirstWrong tree role) :
    ¬ tree.IsDirectory (arguments.path role) := by
  cases h <;> assumption

lemma all_or_firstWrong (arguments : AnalysisArguments) (tree : FileTree) :
    (∀ role, tree.IsDirectory (arguments.path role)) ∨ ∃ role, arguments.FirstWrong tree role := by
  by_cases hsystem : tree.IsDirectory (arguments.path .system)
  · by_cases hmicro : tree.IsDirectory (arguments.path .micro)
    · by_cases hout : tree.IsDirectory (arguments.path .out)
      · exact Or.inl fun | .system => hsystem | .micro => hmicro | .out => hout
      · exact Or.inr ⟨.out, .out hsystem hmicro hout⟩
    · exact Or.inr ⟨.micro, .micro hsystem hmicro⟩
  · exact Or.inr ⟨.system, .system hsystem⟩

end AnalysisArguments

namespace AnalysisConfig

open AnalysisArguments

variable {arguments : AnalysisArguments} {fault : ArgumentFault}

lemma exists_resolve (h : ∀ role, tree.IsDirectory (arguments.path role)) :
    ∃ config, resolve tree arguments = .ok config := by
  obtain ⟨system, hsystem⟩ := exists_resolveDirectory .system (h .system)
  obtain ⟨micro, hmicro⟩ := exists_resolveDirectory .micro (h .micro)
  obtain ⟨out, hout⟩ := exists_resolveDirectory .out (h .out)
  simp only [AnalysisArguments.path] at hsystem hmicro hout
  rw [resolve, hsystem, hmicro, hout]
  exact ⟨_, rfl⟩

lemma resolve_of_firstWrong (h : arguments.FirstWrong tree role)
    (hfault : ArgumentFault.Tells tree role (arguments.path role) fault) :
    resolve tree arguments = .error fault := by
  rw [← resolveDirectory_eq_error_iff] at hfault
  cases h with
  | system =>
    simp only [AnalysisArguments.path] at hfault
    rw [resolve, hfault]
    rfl
  | micro hsystem =>
    obtain ⟨system, hsystem⟩ := exists_resolveDirectory .system hsystem
    simp only [AnalysisArguments.path] at hfault hsystem
    rw [resolve, hsystem, hfault]
    rfl
  | out hsystem hmicro =>
    obtain ⟨system, hsystem⟩ := exists_resolveDirectory .system hsystem
    obtain ⟨micro, hmicro⟩ := exists_resolveDirectory .micro hmicro
    simp only [AnalysisArguments.path] at hfault hsystem hmicro
    rw [resolve, hsystem, hmicro, hfault]
    rfl

/-- **The directories of an analysis are refused** for the first wrong one. -/
theorem resolve_eq_error_iff : resolve tree arguments = .error fault ↔ ∃ role,
    arguments.FirstWrong tree role ∧ ArgumentFault.Tells tree role (arguments.path role) fault := by
  refine ⟨fun herror => ?_, fun ⟨_, hfirst, hfault⟩ => resolve_of_firstWrong hfirst hfault⟩
  rcases arguments.all_or_firstWrong tree with hall | ⟨role, hfirst⟩
  · obtain ⟨config, hok⟩ := exists_resolve hall
    cases hok.symm.trans herror
  · obtain ⟨fault', hfault'⟩ := ArgumentFault.exists_tells role hfirst.wrong
    cases (resolve_of_firstWrong hfirst hfault').symm.trans herror
    exact ⟨role, hfirst, hfault'⟩

end AnalysisConfig

/-! ## Commands -/

/-- The exit code of what a command comes to. -/
def exitCodeOf : Except CommandFault Summary → UInt8
  | .ok _ => 0
  | .error fault => fault.exitCode

namespace Progress

lemma exitCode_writeAll {place : Location} {path : String} {fault : CommandFault}
    {reports : List (OutputPurpose × Report)} {progress : Progress}
    (h : (progress.writeAll path place reports).2 = some fault) : fault.exitCode = 1 := by
  induction reports generalizing progress with
  | nil => cases h
  | cons first rest ih =>
    rw [writeAll] at h
    split at h
    · cases h
      rfl
    · exact ih h

lemma exitCode_writeFile {path : String} {fresh : Bool} {fault : CommandFault}
    {reports : List (OutputPurpose × Report)} {progress : Progress}
    (h : (progress.writeFile path fresh reports).2 = some fault) : fault.exitCode = 1 := by
  rw [writeFile] at h
  split at h
  · cases h
    rfl
  · exact exitCode_writeAll h

end Progress

namespace Command

variable {command : Command} {fault : CommandFault}

/-- **A command that fails** does so with 1. -/
theorem exitCode_of_error (h : (command.run config tree).result = .error fault) :
    fault.exitCode = 1 := by
  cases hload : (Suite.loadAll tree config.systemDirectory config.microDirectory).result with
  | error cause =>
    rw [command.run_of_error hload] at h
    cases h
    rfl
  | ok suites =>
    rw [command.run_of_ok hload] at h
    cases command with
    | overlap =>
      dsimp only at h
      split at h
      · next hwrite =>
        cases h
        exact Progress.exitCode_writeFile hwrite
      · cases h
    | minimization | recommendation counts => cases h

/-- **No counts, no files.** -/
lemma tree_run_nil (config : AnalysisConfig) (tree : FileTree) :
    ((recommendation []).run config tree).tree = tree := by
  cases hload : (Suite.loadAll tree config.systemDirectory config.microDirectory).result with
  | error cause => rw [run_of_error _ hload]
  | ok suites =>
    rw [run_of_ok _ hload]
    rfl

lemma result_run_nil {suites : List Suite}
    (hsuites : (Suite.loadAll tree config.systemDirectory config.microDirectory).result = .ok suites) :
    ((recommendation []).run config tree).result
      = .ok ⟨.recommendation, config, suites.length, []⟩ := by
  rw [run_of_ok _ hsuites]
  rfl

end Command

/-! ## Requests -/

namespace Request

variable {request : Request} {outcome : Outcome}

/-- **Where a run gets to**: a check of the directories, a check of the counts, or the command. -/
inductive Gets (request : Request) (tree : FileTree) : Outcome → Prop
  | arguments {wrong fault} : request.arguments.FirstWrong tree wrong →
      ArgumentFault.Tells tree wrong (request.arguments.path wrong) fault →
        Gets request tree ⟨.error (.arguments fault), [], tree⟩
  | counts {text piece fault} : (∀ role, tree.IsDirectory (request.arguments.path role)) →
      request = .recommendation request.arguments text →
        Counts.RefusedAt (Text.split [','] text.toList) piece →
          Counts.Refused (Text.trim piece) fault →
            Gets request tree ⟨.error (.counts fault), [], tree⟩
  | command {asked command} : request.Asks tree asked command →
      Gets request tree (command.run asked tree)

lemma run_of_resolve_error {fault : ArgumentFault}
    (h : AnalysisConfig.resolve tree request.arguments = .error fault) :
    request.run tree = ⟨.error (.arguments fault), [], tree⟩ := by
  cases request <;> simp only [Request.arguments] at h <;> simp only [run, h]

lemma run_of_parse_error {arguments : AnalysisArguments} {text : String} {fault : CountsFault}
    (hresolve : AnalysisConfig.resolve tree arguments = .ok config)
    (hparse : Counts.parse text = .error fault) :
    (recommendation arguments text).run tree = ⟨.error (.counts fault), [], tree⟩ := by
  simp only [run, hresolve, hparse]

lemma command_recommendation_eq_ok_iff {arguments : AnalysisArguments} {text : String}
    {counts : List ℕ} : (recommendation arguments text).command = .ok (.recommendation counts) ↔
      Counts.parse text = .ok counts := by
  rw [Request.command]
  cases Counts.parse text <;> simp [Except.map]

lemma Gets.eq_run (h : request.Gets tree outcome) : outcome = request.run tree := by
  cases h with
  | arguments hfirst htells =>
    rw [run_of_resolve_error (AnalysisConfig.resolve_of_firstWrong hfirst htells)]
  | counts hall hrequest hpiece hfault =>
    obtain ⟨config, hresolve⟩ := AnalysisConfig.exists_resolve hall
    rw [hrequest, run_of_parse_error hresolve (Counts.parse_eq_error_iff.2 ⟨_, hpiece, hfault⟩)]
  | command hasks => rw [hasks.run_eq]

/-- **A run gets to one of the three.** -/
theorem gets_run (request : Request) (tree : FileTree) : request.Gets tree (request.run tree) := by
  rcases request.arguments.all_or_firstWrong tree with hall | ⟨role, hfirst⟩
  · obtain ⟨config, hresolve⟩ := AnalysisConfig.exists_resolve hall
    cases hcommand : request.command with
    | ok command =>
      have hasks : request.Asks tree config command := ⟨hresolve, hcommand⟩
      exact hasks.run_eq ▸ .command hasks
    | error fault =>
      cases request with
      | overlap | minimization => cases hcommand
      | recommendation arguments text =>
        rw [Request.command] at hcommand
        cases hparse : Counts.parse text with
        | error fault' =>
          obtain ⟨piece, hpiece, hfault⟩ := Counts.parse_eq_error_iff.1 hparse
          have hgets : (recommendation arguments text).Gets tree ⟨.error (.counts fault'), [], tree⟩ :=
            .counts hall rfl hpiece hfault
          exact hgets.eq_run ▸ hgets
        | ok counts =>
          rw [hparse] at hcommand
          cases hcommand
  · obtain ⟨fault, htells⟩ := ArgumentFault.exists_tells role hfirst.wrong
    have hgets := Gets.arguments hfirst htells
    exact hgets.eq_run ▸ hgets

end Request

/-! ## All in all -/

/-- **How a run ends**, told by its checks. -/
structure Exits (request : Request) (tree : FileTree) (result : ProgramResult) : Prop where
  /-- 2 is for the directories. -/
  two_iff : result.exitCode = 2 ↔ ∃ role, request.arguments.FirstWrong tree role
  /-- The first wrong directory is told. -/
  directory_told : ∀ role fault, request.arguments.FirstWrong tree role →
    ArgumentFault.Tells tree role (request.arguments.path role) fault →
      result.error = some (CommandFault.arguments fault).message
  /-- 3 is for the counts, if the first wrong piece is no integer of 64 bits. -/
  three_iff : result.exitCode = 3 ↔ (∀ role, tree.IsDirectory (request.arguments.path role)) ∧
    ∃ text piece, request = .recommendation request.arguments text ∧
      Counts.RefusedAt (Text.split [','] text.toList) piece ∧
      ∀ value, ¬ IsInt64 (Text.trim piece) value
  /-- 4 is for the counts, if the first wrong piece is an integer of 64 bits. -/
  four_iff : result.exitCode = 4 ↔ (∀ role, tree.IsDirectory (request.arguments.path role)) ∧
    ∃ text piece, request = .recommendation request.arguments text ∧
      Counts.RefusedAt (Text.split [','] text.toList) piece ∧
      ∃ value ≤ 0, IsInt64 (Text.trim piece) value
  /-- Where a check has failed no file is touched. -/
  untouched : result.exitCode = 2 ∨ result.exitCode = 3 ∨ result.exitCode = 4 → result.tree = tree
  /-- A command that runs ends with 0 or 1. -/
  asked : ∀ config command, request.Asks tree config command →
    result.exitCode = 0 ∨ result.exitCode = 1
  /-- If nothing can be loaded, no file is touched either. -/
  not_loaded : ∀ config command cause, request.Asks tree config command →
    (Suite.loadAll tree config.systemDirectory config.microDirectory).result = .error cause →
      result.exitCode = 1 ∧ result.tree = tree
  /-- Counts are what the pieces of a text tell, in order. -/
  counts_read : ∀ text counts,
    Counts.parse text = .ok counts ↔ Counts.Tells (Text.split [','] text.toList) counts
  /-- Counts are read back, in whatever way they were written. -/
  written_read : ∀ counts pieces, Counts.Writes counts pieces →
    Counts.parse (String.ofList (Text.join [','] pieces)) = .ok counts
  /-- Behind all checks the command runs with the counts that were read. -/
  counts_asked : ∀ text counts, request = .recommendation request.arguments text →
    (∀ role, tree.IsDirectory (request.arguments.path role)) → Counts.parse text = .ok counts →
      ∃ config, request.Asks tree config (.recommendation counts) ∧
        request.run tree = recommendationCommand config counts tree
  /-- A text of blanks and commas asks for nothing, and nothing is written. -/
  blank : ∀ text, request = .recommendation request.arguments text →
    (∀ c ∈ text.toList, Text.isBlank c = true ∨ c = ',') →
      (∀ role, tree.IsDirectory (request.arguments.path role)) →
        ∃ config, request.Asks tree config (.recommendation []) ∧ result.tree = tree ∧
          ∀ suites, (Suite.loadAll tree config.systemDirectory config.microDirectory).result
              = .ok suites → result.exitCode = 0 ∧
            (request.run tree).result = .ok ⟨.recommendation, config, suites.length, []⟩

section Exits

variable {request : Request} {arguments : List String} {json : Bool}

lemma runProgram_of_run (hrequest : CommandLine.parse arguments = .run request json) (tree : FileTree) :
    (runProgram arguments tree).exitCode = exitCodeOf (request.run tree).result ∧
      (runProgram arguments tree).tree = (request.run tree).tree ∧
      ∀ fault, (request.run tree).result = .error fault →
        (runProgram arguments tree).error = some fault.message := by
  simp only [runProgram, hrequest]
  cases (request.run tree).result with
  | error fault => exact ⟨rfl, rfl, by rintro _ ⟨⟩; rfl⟩
  | ok summary => exact ⟨rfl, rfl, by rintro _ ⟨⟩⟩

namespace Counts

variable {piece entry : List Char} {fault : CountsFault}

lemma Refused.exitCode_cases (h : Refused entry fault) :
    ((CommandFault.counts fault).exitCode = 3 ∧ ∀ value, ¬ IsInt64 entry value) ∨
      ((CommandFault.counts fault).exitCode = 4 ∧ ∃ value ≤ 0, IsInt64 entry value) := by
  cases h with
  | notAnInteger hnot => exact Or.inl ⟨rfl, hnot⟩
  | notPositive hvalue hle => exact Or.inr ⟨rfl, _, hle, hvalue⟩

/-- A wrong piece is refused with 3 if it is no integer. -/
lemma refused_three_iff (hcount : ∀ n, ¬ IsCount piece n) :
    (∃ fault, Refused (Text.trim piece) fault ∧ (CommandFault.counts fault).exitCode = 3) ↔
      ∀ value, ¬ IsInt64 (Text.trim piece) value := by
  constructor
  · rintro ⟨fault, hfault, hthree⟩
    rcases hfault.exitCode_cases with ⟨-, hnot⟩ | ⟨hfour, -⟩
    · exact hnot
    · exact absurd (hfour.symm.trans hthree) (by decide)
  · intro hnot
    obtain ⟨fault, hfault⟩ := exists_refused hcount
    rcases hfault.exitCode_cases with ⟨hthree, -⟩ | ⟨-, value, -, hvalue⟩
    · exact ⟨fault, hfault, hthree⟩
    · exact absurd hvalue (hnot value)

/-- A wrong piece is refused with 4 if it is an integer. -/
lemma refused_four_iff (hcount : ∀ n, ¬ IsCount piece n) :
    (∃ fault, Refused (Text.trim piece) fault ∧ (CommandFault.counts fault).exitCode = 4) ↔
      ∃ value ≤ 0, IsInt64 (Text.trim piece) value := by
  constructor
  · rintro ⟨fault, hfault, hfour⟩
    rcases hfault.exitCode_cases with ⟨hthree, -⟩ | ⟨-, hvalue⟩
    · exact absurd (hthree.symm.trans hfour) (by decide)
    · exact hvalue
  · rintro ⟨value, -, hvalue⟩
    obtain ⟨fault, hfault⟩ := exists_refused hcount
    rcases hfault.exitCode_cases with ⟨-, hnot⟩ | ⟨hfour, -⟩
    · exact absurd hvalue (hnot value)
    · exact ⟨fault, hfault, hfour⟩

end Counts

/-- **A command ends with 0 or 1.** -/
lemma Command.exitCodeOf_run (command : Command) (config : AnalysisConfig) (tree : FileTree) :
    exitCodeOf (command.run config tree).result = 0 ∨
      exitCodeOf (command.run config tree).result = 1 := by
  cases hresult : (command.run config tree).result with
  | ok summary => exact Or.inl rfl
  | error fault => exact Or.inr (exitCode_of_error hresult)

namespace Request

/-- **2 is for the directories.** -/
theorem exitCode_eq_two_iff : exitCodeOf (request.run tree).result = 2 ↔
    ∃ role, request.arguments.FirstWrong tree role := by
  constructor
  · intro hcode
    have hgets := request.gets_run tree
    generalize request.run tree = outcome at hgets hcode
    cases hgets with
    | arguments hfirst => exact ⟨_, hfirst⟩
    | counts _ _ _ hfault =>
      rcases hfault.exitCode_cases with ⟨hthree, -⟩ | ⟨hfour, -⟩
      · exact absurd (hthree.symm.trans hcode) (by decide)
      · exact absurd (hfour.symm.trans hcode) (by decide)
    | @command config command hasks =>
      rcases command.exitCodeOf_run config tree with hzero | hone
      · exact absurd (hzero.symm.trans hcode) (by decide)
      · exact absurd (hone.symm.trans hcode) (by decide)
  · rintro ⟨role, hfirst⟩
    obtain ⟨fault, htells⟩ := ArgumentFault.exists_tells role hfirst.wrong
    rw [← (Gets.arguments hfirst htells).eq_run]
    rfl

/-- **Any other code but 0 and 1 is for the counts**: it tells what is wrong with the first wrong piece. -/
theorem exitCode_eq_iff {code : UInt8} (hcode : code = 3 ∨ code = 4) :
    exitCodeOf (request.run tree).result = code ↔
      (∀ role, tree.IsDirectory (request.arguments.path role)) ∧
        ∃ text piece, request = .recommendation request.arguments text ∧
          Counts.RefusedAt (Text.split [','] text.toList) piece ∧
          ∃ fault, Counts.Refused (Text.trim piece) fault ∧
            (CommandFault.counts fault).exitCode = code := by
  have hne : code ≠ 0 ∧ code ≠ 1 ∧ code ≠ 2 := by rcases hcode with rfl | rfl <;> decide
  constructor
  · intro hrun
    have hgets := request.gets_run tree
    generalize request.run tree = outcome at hgets hrun
    cases hgets with
    | arguments => exact absurd hrun.symm hne.2.2
    | counts hall hrequest hpiece hfault => exact ⟨hall, _, _, hrequest, hpiece, _, hfault, hrun⟩
    | @command config command hasks =>
      rcases command.exitCodeOf_run config tree with hzero | hone
      · exact absurd (hrun.symm.trans hzero) hne.1
      · exact absurd (hrun.symm.trans hone) hne.2.1
  · rintro ⟨hall, text, piece, hrequest, hpiece, fault, hfault, rfl⟩
    rw [← (Gets.counts hall hrequest hpiece hfault).eq_run]
    rfl

/-- **A run that ends at a check** leaves all files as they are. -/
lemma tree_run_of_exitCode (hzero : exitCodeOf (request.run tree).result ≠ 0)
    (hone : exitCodeOf (request.run tree).result ≠ 1) : (request.run tree).tree = tree := by
  have hgets := request.gets_run tree
  generalize request.run tree = outcome at hgets hzero hone
  cases hgets with
  | arguments | counts => rfl
  | @command config command hasks =>
    exact (command.exitCodeOf_run config tree).elim (absurd · hzero) (absurd · hone)

lemma exists_asks {text : String} {counts : List ℕ}
    (hrequest : request = .recommendation request.arguments text)
    (hall : ∀ role, tree.IsDirectory (request.arguments.path role))
    (hparse : Counts.parse text = .ok counts) :
    ∃ config, request.Asks tree config (.recommendation counts) := by
  obtain ⟨config, hresolve⟩ := AnalysisConfig.exists_resolve hall
  exact ⟨config, hresolve, hrequest ▸ command_recommendation_eq_ok_iff.2 hparse⟩

end Request

/-- **Exit codes and untouched files.**  A command line that can be read ends with 2 if one of its
directories is missing or no directory, in the order system, micro, out; otherwise with 3 or 4 if one
of its counts is wrong, by what is wrong with the first of these; and otherwise with 0 or 1.  Unless the
suites are loaded, no file is touched.  Counts are read back however they were written. -/
theorem runProgram_exits (arguments : List String) (tree : FileTree) (request : Request) (json : Bool)
    (hrequest : CommandLine.parse arguments = .run request json) :
    Exits request tree (runProgram arguments tree) := by
  obtain ⟨hcode, htree, herror⟩ := runProgram_of_run hrequest tree
  constructor
  case two_iff => rw [hcode, Request.exitCode_eq_two_iff]
  case directory_told =>
    intro role fault hfirst htells
    exact herror _ (congrArg Outcome.result (Request.Gets.arguments hfirst htells).eq_run.symm)
  case three_iff =>
    rw [hcode, Request.exitCode_eq_iff (Or.inl rfl)]
    exact and_congr_right fun _ => exists_congr fun text => exists_congr fun piece =>
      and_congr_right fun _ => and_congr_right fun hpiece => Counts.refused_three_iff hpiece.not_count
  case four_iff =>
    rw [hcode, Request.exitCode_eq_iff (Or.inr rfl)]
    exact and_congr_right fun _ => exists_congr fun text => exists_congr fun piece =>
      and_congr_right fun _ => and_congr_right fun hpiece => Counts.refused_four_iff hpiece.not_count
  case untouched =>
    rw [hcode, htree]
    intro h
    refine Request.tree_run_of_exitCode (fun hzero => ?_) fun hone => ?_
    · exact absurd (hzero ▸ h) (by decide)
    · exact absurd (hone ▸ h) (by decide)
  case asked =>
    intro config command hasks
    rw [hcode, hasks.run_eq]
    exact command.exitCodeOf_run config tree
  case not_loaded =>
    intro config command cause hasks hload
    rw [hcode, htree, hasks.run_eq, command.run_of_error hload]
    exact ⟨rfl, rfl⟩
  case counts_read => exact fun text counts => Counts.parse_eq_ok_iff
  case written_read => exact fun counts pieces => Counts.parse_of_writes
  case counts_asked =>
    intro text counts htext hall hparse
    obtain ⟨config, hasks⟩ := Request.exists_asks htext hall hparse
    exact ⟨config, hasks, hasks.run_eq⟩
  case blank =>
    intro text htext hblank hall
    obtain ⟨config, hasks⟩ := Request.exists_asks htext hall (Counts.parse_of_isBlank hblank)
    rw [hcode, htree, hasks.run_eq]
    refine ⟨config, hasks, Command.tree_run_nil config tree, fun suites hsuites => ?_⟩
    rw [Command.result_run_nil hsuites]
    exact ⟨rfl, rfl⟩

end Exits

/-! ### Wrong counts in proper directories -/

/-- A count in front of a piece that is none. -/
def wrongCounts : List String := ["recommendation", "p/", "s", "m", "o", "3, x, 0"]

namespace WrongCounts

lemma isDirectory (role : DirectoryRole) :
    tracingTree.IsDirectory ((⟨"p/", "s", "m", "o"⟩ : AnalysisArguments).path role) := by
  cases role with
  | system => exact ⟨_, Half.holds_tracingTree.system⟩
  | micro => exact ⟨_, Half.holds_tracingTree.micro⟩
  | out => exact ⟨_, FileTree.walk_eq_ok_iff.2 ⟨by decide,
      .into ⟨rfl, by decide, FileTree.nameFault?_of_le (by decide)⟩ rfl nofun (.here rfl)⟩⟩

lemma refusedAt : Counts.RefusedAt (Text.split [','] "3, x, 0".toList) [' ', 'x'] where
  split := ⟨[['3']], [[' ', '0']], by decide,
    List.forall_mem_singleton.2 (Or.inr ⟨3, Counts.isCount_iff.2 rfl⟩)⟩
  not_blank := show ¬ Text.trim [' ', 'x'] = [] by decide
  not_count n h := by cases Counts.isCount_iff.1 h

end WrongCounts

open WrongCounts in
/-- The piece that is no integer decides, and what stands behind it does not matter. -/
theorem runProgram_exits_wrongCounts : ∃ request,
    CommandLine.parse wrongCounts = .run request false ∧
      Exits request tracingTree (runProgram wrongCounts tracingTree) ∧
      (runProgram wrongCounts tracingTree).exitCode = 3 := by
  have hrequest : CommandLine.parse wrongCounts
      = .run (.recommendation ⟨"p/", "s", "m", "o"⟩ "3, x, 0") false := by decide
  have hexits := runProgram_exits wrongCounts tracingTree _ false hrequest
  refine ⟨_, hrequest, hexits, hexits.three_iff.2 ⟨isDirectory, _, _, rfl, refusedAt, ?_⟩⟩
  exact fun value hvalue => by cases readInt64_eq_ok_iff.2 hvalue

end BenchCover
