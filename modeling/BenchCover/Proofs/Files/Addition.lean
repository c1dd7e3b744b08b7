import BenchCover.Files.Output
import BenchCover.Proofs.Files.Following

/-!
# Adding a file

What changes for those who follow paths and write files when a tree has one file more.

**One file.**  `PutsFile` says that two trees differ in a file at one place, where before nothing or
another file was.  Paths lead to the same targets in both trees, but for that place
(`PutsFile.walk_ok`), and no path leads anywhere that led nowhere (`PutsFile.walk_error`).

**Side by side.**  `Beside` relates the trees of two runs, one of which has a file more where no link
leads.  Output to paths that do not end in the name of this file keeps trees side by side: opening
(`Beside.openOutput`) and writing (`Beside.write`) come to the same in both.
-/

namespace BenchCover

namespace FileTree

variable {tree tree' next : FileTree} {access : Access} {links : Nat} {place start : Location}
  {parts : List String} {target : Target} {bytes : List UInt8} {path : String}

/-! ## One file -/

/-- **Trees that differ in one file**, which is put where nothing or another file is. -/
structure PutsFile (place : Location) (bytes : List UInt8) (tree tree' : FileTree) : Prop where
  workingDirectory : tree'.workingDirectory = tree.workingDirectory
  free : tree.get? place = none ∨ ∃ before, tree.get? place = some (.file before)
  there : tree'.get? place = some (.file bytes)
  elsewhere : ∀ other, other ≠ place → tree'.get? other = tree.get? other

/-- What a target turns into when a file is put at a place. -/
def Target.after (place : Location) (bytes : List UInt8) : Target → Target
  | .present other entry =>
    if other = place then .present place (.file bytes) else .present other entry
  | .vacant other => if other = place then .present place (.file bytes) else .vacant other

lemma after_present_of_ne {other : Location} {entry : FileEntry} (h : other ≠ place) :
    (Target.present other entry).after place bytes = .present other entry :=
  if_neg h

lemma after_vacant_of_ne {other : Location} (h : other ≠ place) :
    (Target.vacant other).after place bytes = .vacant other :=
  if_neg h

lemma after_of_ne (h : target.location ≠ place) : target.after place bytes = target := by
  cases target with
  | present other entry => exact after_present_of_ne h
  | vacant other => exact after_vacant_of_ne h

lemma location_after (target : Target) (place : Location) (bytes : List UInt8) :
    (target.after place bytes).location = target.location := by
  by_cases hplace : target.location = place
  · cases target <;> simp_all [Target.after, Target.location]
  · rw [after_of_ne hplace]

namespace PutsFile

lemma ne_of_directory (h : PutsFile place bytes tree tree')
    (hstart : tree.get? start = some .directory) : start ≠ place := by
  rintro rfl
  rcases h.free with hfree | ⟨before, hfree⟩ <;> rw [hstart] at hfree <;> cases hfree

lemma ne_of_link (h : PutsFile place bytes tree tree')
    (hstart : tree.get? start = some (.link path)) : start ≠ place := by
  rintro rfl
  rcases h.free with hfree | ⟨before, hfree⟩ <;> rw [hstart] at hfree <;> cases hfree

lemma inside (h : PutsFile place bytes tree tree') : place ≠ [] := by
  have hroot : tree.get? [] = some .directory := rfl
  exact (h.ne_of_directory hroot).symm

lemma directory (h : PutsFile place bytes tree tree')
    (hstart : tree.get? start = some .directory) : tree'.get? start = some .directory := by
  rw [h.elsewhere start (h.ne_of_directory hstart), hstart]

lemma ne_of_directory' (h : PutsFile place bytes tree tree')
    (hstart : tree'.get? start = some .directory) : start ≠ place := by
  rintro rfl
  rw [h.there] at hstart
  cases hstart

/-- The directories of the second tree are those of the first. -/
lemma directory_of (h : PutsFile place bytes tree tree')
    (hstart : tree'.get? start = some .directory) : tree.get? start = some .directory := by
  rw [← h.elsewhere start (h.ne_of_directory' hstart), hstart]

lemma looksUp {name : String} {left : List String} (h : PutsFile place bytes tree tree')
    (hlooks : tree.LooksUp access start name left) : tree'.LooksUp access start name left :=
  ⟨h.directory hlooks.directory, hlooks.proper, hlooks.noFault⟩

lemma looksUp_of {name : String} {left : List String} (h : PutsFile place bytes tree tree')
    (hlooks : tree'.LooksUp access start name left) : tree.LooksUp access start name left :=
  ⟨h.directory_of hlooks.directory, hlooks.proper, hlooks.noFault⟩

/-- **Paths lead to the same targets**, but for the place of the file. -/
theorem leads (h : PutsFile place bytes tree tree')
    (hleads : tree.Leads access links start parts target) :
    tree'.Leads access links start parts (target.after place bytes) := by
  induction hleads with
  | @here _ start entry hentry =>
    by_cases hplace : start = place
    · subst hplace
      rw [Target.after, if_pos rfl]
      exact .here h.there
    · rw [after_present_of_ne hplace]
      exact .here (by rw [h.elsewhere start hplace, hentry])
  | stay hdirectory hpart _ ih => exact .stay (h.directory hdirectory) hpart ih
  | up hdirectory _ ih => exact .up (h.directory hdirectory) ih
  | @vacant _ start name hlooks hnone =>
    by_cases hplace : start ++ [name] = place
    · subst hplace
      rw [Target.after, if_pos rfl]
      exact .into (h.looksUp hlooks) h.there (by simp) (.here h.there)
    · rw [after_vacant_of_ne hplace]
      exact .vacant (h.looksUp hlooks) (by rw [h.elsewhere _ hplace, hnone])
  | link hlooks hlink _ ih =>
    exact .link (h.looksUp hlooks) (by rw [h.elsewhere _ (h.ne_of_link hlink), hlink]) ih
  | @into _ start name _ entry _ hlooks hentry hlink _ ih =>
    by_cases hplace : start ++ [name] = place
    · have hthere : tree'.get? (start ++ [name]) = some (.file bytes) := by rw [hplace, h.there]
      exact .into (h.looksUp hlooks) hthere (by simp) ih
    · exact .into (h.looksUp hlooks) (by rw [h.elsewhere _ hplace, hentry]) hlink ih

/-- **A path that leads somewhere led somewhere before.** -/
theorem exists_leads (h : PutsFile place bytes tree tree') (hgrounded : tree.Grounded)
    (hstart : parts ≠ [] ∨ tree.get? start ≠ none)
    (hleads : tree'.Leads access links start parts target) :
    ∃ target, tree.Leads access links start parts target := by
  induction hleads with
  | @here _ start entry hentry =>
    have hsome := hstart.resolve_left (not_not_intro rfl)
    obtain ⟨before, hbefore⟩ := Option.ne_none_iff_exists'.1 hsome
    exact ⟨_, .here hbefore⟩
  | stay hdirectory hpart _ ih =>
    have hbefore := h.directory_of hdirectory
    obtain ⟨target, hleads⟩ := ih (Or.inr (by simp [hbefore]))
    exact ⟨target, .stay hbefore hpart hleads⟩
  | @up _ start _ _ hdirectory _ ih =>
    have hbefore := h.directory_of hdirectory
    have habove : tree.get? start.dropLast ≠ none := by
      obtain rfl | ⟨above, name, rfl⟩ := start.eq_nil_or_concat'
      · simp [get?]
      · rw [List.dropLast_concat, hgrounded above name (by simp [hbefore])]
        simp
    obtain ⟨target, hleads⟩ := ih (Or.inr habove)
    exact ⟨target, .up hbefore hleads⟩
  | @vacant _ start name hlooks hnone =>
    have hplace : start ++ [name] ≠ place := fun hplace => by
      rw [hplace, h.there] at hnone
      cases hnone
    exact ⟨_, .vacant (h.looksUp_of hlooks) (by rw [← h.elsewhere _ hplace, hnone])⟩
  | @link _ start name path rest _ hlooks hlink _ ih =>
    have hplace : start ++ [name] ≠ place := fun hplace => by
      rw [hplace, h.there] at hlink
      cases hlink
    obtain ⟨target, hleads⟩ := ih (Or.inl (by simp [Path.parts_ne_nil]))
    exact ⟨target, .link (h.looksUp_of hlooks) (by rw [← h.elsewhere _ hplace, hlink]) hleads⟩
  | @into _ start name rest entry _ hlooks hentry hlink hleads ih =>
    by_cases hplace : start ++ [name] = place
    · -- behind a file there are no parts left
      have hrest : rest = [] := by
        cases rest with
        | nil => rfl
        | cons part left => exact absurd hplace (h.ne_of_directory' hleads.directory)
      subst hrest hplace
      rcases h.free with hfree | ⟨before, hfree⟩
      · exact ⟨_, .vacant (h.looksUp_of hlooks) hfree⟩
      · exact ⟨_, .into (h.looksUp_of hlooks) hfree (by simp) (.here hfree)⟩
    · have hbefore : tree.get? (start ++ [name]) = some entry := by
        rw [← h.elsewhere _ hplace, hentry]
      obtain ⟨target, hleads⟩ := ih (Or.inr (by simp [hbefore]))
      exact ⟨target, .into (h.looksUp_of hlooks) hbefore hlink hleads⟩

lemma walk_ok (h : PutsFile place bytes tree tree') (hok : tree.walk access path = .ok target) :
    tree'.walk access path = .ok (target.after place bytes) := by
  obtain ⟨hfault, hleads⟩ := walk_eq_ok_iff.1 hok
  refine walk_eq_ok_iff.2 ⟨hfault, ?_⟩
  rw [h.workingDirectory]
  exact h.leads hleads

lemma walk_error (h : PutsFile place bytes tree tree') (hgrounded : tree.Grounded)
    {fault : FileFault} (hfault : tree.walk access path = .error fault) :
    ∃ fault', tree'.walk access path = .error fault' := by
  cases hwalk : tree'.walk access path with
  | error fault' => exact ⟨fault', rfl⟩
  | ok target =>
    obtain ⟨hpath, hleads⟩ := walk_eq_ok_iff.1 hwalk
    rw [h.workingDirectory] at hleads
    obtain ⟨before, hbefore⟩ := h.exists_leads hgrounded (Or.inl (Path.parts_ne_nil path)) hleads
    rw [walk_eq_ok_iff.2 ⟨hpath, hbefore⟩] at hfault
    cases hfault

/-! ### What stays true -/

lemma grounded (h : PutsFile place bytes tree tree') (hgrounded : tree.Grounded)
    (hplace : ∀ directory name, place = directory ++ [name] →
      tree.get? directory = some .directory) : tree'.Grounded := by
  intro location name hsome
  refine h.directory ?_
  by_cases hsame : location ++ [name] = place
  · exact hplace location name hsame.symm
  · rw [h.elsewhere _ hsame] at hsome
    exact hgrounded location name hsome

/-- Putting a file somewhere makes no link lead to a vacant place. -/
lemma unlinked (h : PutsFile place bytes tree tree') (hgrounded : tree.Grounded)
    {other : Location} (hunlinked : tree.Unlinked other) : tree'.Unlinked other := by
  intro location path hlink hvacant
  have hplace : location ≠ place := by
    rintro rfl
    rw [h.there] at hlink
    cases hlink
  rw [h.elsewhere location hplace] at hlink
  have hleads := follow_eq_ok_iff.1 hvacant
  obtain ⟨target, hbefore⟩ := h.exists_leads hgrounded (Or.inl (Path.parts_ne_nil path)) hleads
  have hafter := leads_unique (h.leads hbefore) hleads
  cases target with
  | present found entry =>
    rw [Target.after] at hafter
    split_ifs at hafter
  | vacant found =>
    rw [Target.after] at hafter
    split_ifs at hafter
    cases hafter
    exact hunlinked location path hlink (follow_eq_ok_iff.2 hbefore)

end PutsFile

/-- Putting a file in a tree. -/
lemma putsFile_set
    (hfree : tree.get? place = none ∨ ∃ before, tree.get? place = some (.file before))
    (bytes : List UInt8) : PutsFile place bytes tree (tree.set place (.file bytes)) := by
  have hinside : place ≠ [] := by
    rintro rfl
    rcases hfree with hfree | ⟨before, hfree⟩ <;> cases hfree
  exact
    { workingDirectory := rfl
      free := hfree
      there := by rw [get?_set hinside, if_pos rfl]
      elsewhere := fun other hother => by rw [get?_set hinside, if_neg hother.symm] }

/-! ## Side by side -/

/-- **The trees of two runs**, the second of which has a file more. -/
structure Beside (place : Location) (bytes : List UInt8) (tree tree' : FileTree) : Prop where
  puts : PutsFile place bytes tree tree'
  vacant : tree.get? place = none
  grounded : tree.Grounded
  unlinked : tree.Unlinked place

namespace Beside

variable {other : Location} {fresh : Bool}

/-- **The same file put into both trees** leaves them side by side. -/
lemma set (h : Beside place bytes tree tree') (hother : other ≠ place)
    (hfree : tree.get? other = none ∨ ∃ before, tree.get? other = some (.file before))
    (hdirectory : ∀ directory name, other = directory ++ [name] →
      tree.get? directory = some .directory) (content : List UInt8) :
    Beside place bytes (tree.set other (.file content)) (tree'.set other (.file content)) := by
  have hputs := putsFile_set hfree content
  have hinside := hputs.inside
  refine ⟨⟨h.puts.workingDirectory, Or.inl ?_, ?_, ?_⟩, ?_, hputs.grounded h.grounded hdirectory,
    hputs.unlinked h.grounded h.unlinked⟩
  · rw [hputs.elsewhere place hother.symm, h.vacant]
  · rw [get?_set hinside, if_neg hother, h.puts.there]
  · intro location hlocation
    rw [get?_set hinside, get?_set hinside, h.puts.elsewhere location hlocation]
  · rw [hputs.elsewhere place hother.symm, h.vacant]

lemma ne_of_some (h : Beside place bytes tree tree') {entry : FileEntry}
    (hentry : tree.get? other = some entry) : other ≠ place := by
  rintro rfl
  rw [h.vacant] at hentry
  cases hentry

/-- **Opening a file for output** comes to the same in both trees, if its path does not end in the
name of the file that is more.  When it fails, the reasons may differ. -/
theorem openOutput (h : Beside place bytes tree tree')
    (hlast : (Path.parts path).getLast? ≠ place.getLast?) (fresh : Bool) :
    (∃ fault fault', tree.openOutput path fresh = .error fault ∧
        tree'.openOutput path fresh = .error fault') ∨
      ∃ next next' other, tree.openOutput path fresh = .ok (next, other) ∧
        tree'.openOutput path fresh = .ok (next', other) ∧ Beside place bytes next next' ∧
        other ≠ place := by
  simp only [FileTree.openOutput]
  cases hwalk : tree.walk .writing path with
  | error fault =>
    obtain ⟨fault', hwalk'⟩ := h.puts.walk_error h.grounded hwalk
    exact Or.inl ⟨fault, fault', rfl, by rw [hwalk']; rfl⟩
  | ok target =>
    have hwalk' := h.puts.walk_ok hwalk
    have hleads := (walk_eq_ok_iff.1 hwalk).2
    have hfound := hleads.found
    cases target with
    | vacant other =>
      have hother : other ≠ place := by
        rintro rfl
        exact hlast (h.unlinked.getLast?_parts hleads (Nat.le_refl _))
      obtain ⟨hnone, directory, name, hconcat, hdirectory⟩ := hfound
      rw [after_vacant_of_ne hother] at hwalk'
      refine Or.inr ⟨_, _, other, rfl, by rw [hwalk']; rfl, ?_, hother⟩
      refine h.set hother (Or.inl hnone) (fun directory' name' hconcat' => ?_) []
      obtain ⟨rfl, -⟩ := List.append_inj' (hconcat.symm.trans hconcat') rfl
      exact hdirectory
    | present other entry =>
      have hother := h.ne_of_some hfound
      rw [after_present_of_ne hother] at hwalk'
      rw [hwalk']
      cases entry with
      | directory => exact Or.inl ⟨_, _, rfl, rfl⟩
      | locked => exact Or.inl ⟨_, _, rfl, rfl⟩
      | file before =>
        cases fresh with
        | false => exact Or.inr ⟨tree, tree', other, rfl, rfl, h, hother⟩
        | true =>
          refine Or.inr ⟨_, _, other, rfl, rfl, ?_, hother⟩
          refine h.set hother (Or.inr ⟨before, hfound⟩) (fun directory name hconcat => ?_) []
          subst hconcat
          exact h.grounded directory name (Option.ne_none_iff_exists'.2 ⟨_, hfound⟩)
      | link target => exact Or.inr ⟨tree, tree', other, rfl, rfl, h, hother⟩
      | fullDevice => exact Or.inr ⟨tree, tree', other, rfl, rfl, h, hother⟩
      | nullDevice => exact Or.inr ⟨tree, tree', other, rfl, rfl, h, hother⟩

lemma appendBytes (h : Beside place bytes tree tree') (hother : other ≠ place)
    (more : List UInt8) :
    (∃ fault, tree.appendBytes other more = .error fault ∧
        tree'.appendBytes other more = .error fault) ∨
      ∃ next next', tree.appendBytes other more = .ok next ∧
        tree'.appendBytes other more = .ok next' ∧ Beside place bytes next next' := by
  simp only [FileTree.appendBytes, h.puts.elsewhere other hother]
  cases hentry : tree.get? other with
  | none => exact Or.inl ⟨_, rfl, rfl⟩
  | some entry =>
    cases entry with
    | file before =>
      refine Or.inr ⟨_, _, rfl, rfl, ?_⟩
      refine h.set hother (Or.inr ⟨before, hentry⟩) (fun directory name hconcat => ?_) _
      subst hconcat
      exact h.grounded directory name (Option.ne_none_iff_exists'.2 ⟨_, hentry⟩)
    | nullDevice => exact Or.inr ⟨tree, tree', rfl, rfl, h⟩
    | directory => exact Or.inl ⟨_, rfl, rfl⟩
    | locked => exact Or.inl ⟨_, rfl, rfl⟩
    | link target => exact Or.inl ⟨_, rfl, rfl⟩
    | fullDevice => exact Or.inl ⟨_, rfl, rfl⟩

lemma writeRows (h : Beside place bytes tree tree') (hother : other ≠ place) (rows : List Row) :
    (tree'.writeRows other rows).2 = (tree.writeRows other rows).2 ∧
      Beside place bytes (tree.writeRows other rows).1 (tree'.writeRows other rows).1 := by
  induction rows generalizing tree tree' with
  | nil => exact ⟨rfl, h⟩
  | cons row rest ih =>
    rcases h.appendBytes hother (String.ofList row.encode).toUTF8.toList with
      ⟨fault, hfault, hfault'⟩ | ⟨next, next', hok, hok', hnext⟩
    · simp only [FileTree.writeRows, hfault, hfault']
      exact ⟨trivial, h⟩
    · simp only [FileTree.writeRows, hok, hok']
      exact ih hnext

/-- **Writing a report** comes to the same in both trees. -/
theorem write (h : Beside place bytes tree tree') (hother : other ≠ place) (report : Report) :
    (tree'.write other report).2 = (tree.write other report).2 ∧
      Beside place bytes (tree.write other report).1 (tree'.write other report).1 := by
  obtain ⟨hfault, hrows⟩ := h.writeRows hother report.rows
  exact ⟨congrArg (·.or report.fault) hfault, hrows⟩

end Beside

end FileTree

end BenchCover
