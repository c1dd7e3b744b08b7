import BenchCover.Proofs.Command.Outputs

/-!
# Writing reports to files

What a command has done so far, when it writes where some paths take output and others are blocked.

**Two files** that are written together are put and noted one after the other, up to the first that is
blocked, and that one is the fault (`Progress.writeFiles_pair`).

**Two passes** over the same two files come to the reports of both passes, one behind the other, and
note each file once (`Progress.after_pairFiles_pairFiles`).
-/

namespace BenchCover

variable {paths : List String} {blocked : String → Bool}

/-- Notes a file, once. -/
def noted (files : List String) (path : String) : List String :=
  if path ∈ files then files else files ++ [path]

lemma noted_of_mem {files : List String} {path : String} (h : path ∈ files) : noted files path = files :=
  if_pos h

lemma mem_noted {files : List String} {path path' : String} :
    path' ∈ noted files path ↔ path' ∈ files ∨ path' = path := by
  rw [noted]
  split_ifs with hmem
  · exact ⟨Or.inl, fun h => h.elim id fun hsame => hsame ▸ hmem⟩
  · simp

lemma noted_twice (files : List String) (path : String) :
    noted (noted files path) path = noted files path :=
  noted_of_mem (mem_noted.2 (Or.inr rfl))

lemma noted_pair_twice (files : List String) (path path' : String) :
    noted (noted (noted (noted files path) path') path) path' = noted (noted files path) path' := by
  have hpath : path ∈ noted (noted files path) path' := mem_noted.2 (Or.inl (mem_noted.2 (Or.inr rfl)))
  rw [noted_of_mem hpath, noted_twice]

namespace Progress

variable {progress : Progress} {path path' : String} {place other : Location} {purpose : OutputPurpose}
  {fresh : Bool}

/-- What is left to do when a file has been put. -/
def put (progress : Progress) (path : String) (bytes : List UInt8) : Progress :=
  { progress with tree := progress.tree.putFile path bytes }

/-- **What comes after** some files were put and noted, and some warnings were given. -/
def after (progress : Progress) (files : List (String × List UInt8)) (warnings : List Warning) :
    Progress where
  tree := progress.tree.putFiles files
  files := (files.map (·.1)).foldl noted progress.files
  warnings := progress.warnings ++ warnings

lemma after_nil (progress : Progress) : progress.after [] [] = progress := by
  simp [after, FileTree.putFiles]

lemma after_after (progress : Progress) (files files' : List (String × List UInt8))
    (warnings warnings' : List Warning) :
    (progress.after files warnings).after files' warnings'
      = progress.after (files ++ files') (warnings ++ warnings') := by
  simp [after, FileTree.putFiles, List.foldl_append]

lemma after_congr {files files' : List (String × List UInt8)}
    (htree : progress.tree.putFiles files = progress.tree.putFiles files')
    (hnoted : (files.map (·.1)).foldl noted progress.files = (files'.map (·.1)).foldl noted progress.files)
    (warnings : List Warning) : progress.after files warnings = progress.after files' warnings := by
  rw [after, after, htree, hnoted]

lemma addFile_put (progress : Progress) (path : String) (bytes : List UInt8) :
    (progress.put path bytes).addFile path = progress.after [(path, bytes)] [] := by
  by_cases hmem : path ∈ progress.files <;>
    simp [addFile, put, after, noted, FileTree.putFiles, hmem]

lemma orWarn_some (warning : CommandFault → Warning) (progress : Progress)
    (cause : CommandFault) :
    orWarn warning (progress, some cause) = progress.after [] [warning cause] := rfl

lemma orWarn_map (warning : CommandFault → Warning) (progress : Progress)
    (files : List (String × List UInt8)) (fault : Option CommandFault) :
    orWarn warning (progress.after files [], fault)
      = progress.after files (fault.toList.map warning) := by
  cases fault with
  | none => rfl
  | some cause =>
    rw [orWarn_some, after_after, List.append_nil]
    rfl

/-- What a file holds before it is written. -/
def start (tree : FileTree) (path : String) (fresh : Bool) : List UInt8 :=
  if fresh then [] else tree.content path

/-- **A report that is written to a file** is noted if it does not end early. -/
lemma writeFile_of_receives (h : progress.tree.Receives path place) (report : Report) :
    progress.writeFile path fresh [(purpose, report)] =
      let bytes := start progress.tree path fresh ++ bytesOf report.rows
      match report.fault with
      | none => (progress.after [(path, bytes)] [], none)
      | some cause => (progress.put path bytes, some (.write purpose path cause)) := by
  rw [writeFile, h.openOutput_eq]
  simp only [writeAll, FileTree.write_eq h.inside, ← addFile_put, put, h.putFile_eq]
  cases report.fault <;> rfl

lemma writeFile_of_blocks (h : progress.tree.Blocks path) (reports : List (OutputPurpose × Report)) :
    progress.writeFile path fresh reports = (progress, some (.openOutput path .isADirectory)) := by
  rw [writeFile, h.openOutput_eq]

/-! ### Two files -/

section Pair

variable {first second : Report}

/-- What two files are put with, one after the other. -/
def pairFiles (tree : FileTree) (fresh : Bool) (path : String) (first : Report) (path' : String)
    (second : Report) : List (String × List UInt8) :=
  [(path, start tree path fresh ++ bytesOf first.rows),
    (path', start tree path' fresh ++ bytesOf second.rows)]

/-- What a file holds before it is written does not depend on the other one. -/
lemma start_after (h : progress.tree.Receives path place) (h' : progress.tree.Receives path' other)
    (hne : other ≠ place) (fresh : Bool) (bytes : List UInt8) :
    start (progress.after [(path, bytes)] []).tree path' fresh = start progress.tree path' fresh := by
  rw [start, start]
  exact congrArg (ite _ _) (h.content_putFile_of_ne h' hne bytes)

lemma writeFiles_cons_of_receives (h : progress.tree.Receives path place) (hfault : first.fault = none)
    (rest : List (String × Report)) :
    progress.writeFiles purpose fresh ((path, first) :: rest)
      = (progress.after [(path, start progress.tree path fresh ++ bytesOf first.rows)] []).writeFiles
          purpose fresh rest := by
  rw [writeFiles, writeFile_of_receives h]
  simp only [hfault]

lemma writeFiles_cons_of_blocks (h : progress.tree.Blocks path) (rest : List (String × Report)) :
    progress.writeFiles purpose fresh ((path, first) :: rest)
      = (progress, some (.openOutput path .isADirectory)) := by
  rw [writeFiles, writeFile_of_blocks h]

/-- **Two files that are written together** are put and noted up to the first one that is blocked. -/
lemma writeFiles_pair (hoffers : progress.tree.Offers blocked paths) (hpath : path ∈ paths)
    (hpath' : path' ∈ paths) (hne : (Path.parts path).getLast? ≠ (Path.parts path').getLast?)
    (hfirst : first.fault = none) (hsecond : second.fault = none) :
    progress.writeFiles purpose fresh [(path, first), (path', second)] =
      (progress.after ((pairFiles progress.tree fresh path first path' second).takeWhile
        fun file => !blocked file.1) [],
      ([path, path'].find? blocked).map fun path => .openOutput path .isADirectory) := by
  cases hblocked : blocked path with
  | true =>
    rw [writeFiles_cons_of_blocks (hoffers.blocks path hpath hblocked)]
    simp [pairFiles, hblocked, after_nil]
  | false =>
    obtain ⟨place, h⟩ := hoffers.receives path hpath hblocked
    have hputs := h.putsFile_putFile (start progress.tree path fresh ++ bytesOf first.rows)
    rw [writeFiles_cons_of_receives h hfirst]
    cases hblocked' : blocked path' with
    | true =>
      rw [writeFiles_cons_of_blocks (hputs.blocks (hoffers.blocks path' hpath' hblocked'))]
      simp [pairFiles, hblocked, hblocked']
    | false =>
      obtain ⟨other, h'⟩ := hoffers.receives path' hpath' hblocked'
      rw [writeFiles_cons_of_receives (hputs.receives h') hsecond, writeFiles, after_after,
        start_after h h' (hoffers.ne_of_getLast? hpath hpath' h h' hne).symm]
      simp [pairFiles, hblocked, hblocked']

/-! ### Two passes -/

/-- What is put twice is put and noted once. -/
lemma after_after_same (h : progress.tree.Receives path place) (before bytes : List UInt8)
    (warnings warnings' : List Warning) :
    (progress.after [(path, before)] warnings).after [(path, bytes)] warnings'
      = progress.after [(path, bytes)] (warnings ++ warnings') := by
  rw [after_after]
  refine after_congr ?_ ?_ _
  · exact h.putFile_putFile _ _
  · exact noted_twice _ _

lemma after_after_pair (h : progress.tree.Receives path place) (h' : progress.tree.Receives path' other)
    (hne : other ≠ place) (before before' bytes bytes' : List UInt8) (warnings warnings' : List Warning) :
    (progress.after [(path, before), (path', before')] warnings).after
        [(path, bytes), (path', bytes')] warnings'
      = progress.after [(path, bytes), (path', bytes')] (warnings ++ warnings') := by
  rw [after_after]
  refine after_congr ?_ ?_ _
  · exact h.putFile_putFile_pair h' hne _ _ _ _
  · exact noted_pair_twice _ _ _

/-- What two files hold that were put one after the other. -/
lemma start_putFile_pair (h : progress.tree.Receives path place)
    (h' : progress.tree.Receives path' other) (hne : place ≠ other) (bytes bytes' : List UInt8)
    (warnings : List Warning) :
    start (progress.after [(path, bytes), (path', bytes')] warnings).tree path false = bytes ∧
      start (progress.after [(path, bytes), (path', bytes')] warnings).tree path' false = bytes' := by
  have hputs := h.putsFile_putFile bytes
  exact ⟨((hputs.receives h').content_putFile_of_ne (hputs.receives h) hne bytes').trans
    (h.content_putFile bytes), (hputs.receives h').content_putFile bytes'⟩

/-- **Two passes over the same two files** come to the reports of both, one behind the other. -/
lemma after_pairFiles_pairFiles (hoffers : progress.tree.Offers blocked paths) (hpath : path ∈ paths)
    (hpath' : path' ∈ paths) (hne : (Path.parts path).getLast? ≠ (Path.parts path').getLast?)
    (first first' second second' : Report) (warnings warnings' : List Warning) {next : Progress}
    (hnext : next = progress.after ((pairFiles progress.tree true path first path' first').takeWhile
      fun file => !blocked file.1) warnings) :
    next.after ((pairFiles next.tree false path second path' second').takeWhile
        fun file => !blocked file.1) warnings'
      = progress.after ([(path, bytesOf (first.rows ++ second.rows)),
          (path', bytesOf (first'.rows ++ second'.rows))].takeWhile fun file => !blocked file.1)
          (warnings ++ warnings') := by
  cases hblocked : blocked path with
  | true =>
    rw [hnext, after_after]
    simp [pairFiles, hblocked]
  | false =>
    obtain ⟨place, h⟩ := hoffers.receives path hpath hblocked
    cases hblocked' : blocked path' with
    | true =>
      have hfirst : next = progress.after [(path, bytesOf first.rows)] warnings := by
        simpa [pairFiles, start, hblocked, hblocked'] using hnext
      have hstart : start next.tree path false = bytesOf first.rows := by
        rw [hfirst]
        exact h.content_putFile _
      rw [pairFiles, hstart, hfirst, ← bytesOf_append]
      simpa [hblocked, hblocked'] using after_after_same h _ _ warnings warnings'
    | false =>
      obtain ⟨other, h'⟩ := hoffers.receives path' hpath' hblocked'
      have hplaces := hoffers.ne_of_getLast? hpath hpath' h h' hne
      have hboth : next = progress.after
          [(path, bytesOf first.rows), (path', bytesOf first'.rows)] warnings := by
        simpa [pairFiles, start, hblocked, hblocked'] using hnext
      obtain ⟨hstart, hstart'⟩ := start_putFile_pair h h' hplaces (bytesOf first.rows)
        (bytesOf first'.rows) warnings
      rw [pairFiles, hboth, hstart, hstart', ← bytesOf_append, ← bytesOf_append]
      simpa [hblocked, hblocked'] using after_after_pair h h' hplaces.symm _ _ _ _ warnings warnings'

end Pair

end Progress

end BenchCover
