import BenchCover.Proofs.Dot.Renaming
import BenchCover.Proofs.Graph.Distance
import Mathlib.Data.List.Find
import Mathlib.Data.Set.Function

/-!
# Identifiers are local to a document

The identifiers of nodes mean nothing outside their document: other ones do as well, as long as they are
different where the old ones are and can stand in front of an attribute list.  Nor does it matter which
names are registered already.

**Refusals.**  An outline with other identifiers reads what the outline reads
(`Outline.apply_agree`), so that reading stops at the same line (`Outline.readFrom_agree`).

**Meaning.**  The node lines have the same names and times, and an identifier stands for the same name
as before (`nameBelow_renameTexts`), so that the edge lines join the same names
(`callLines_renameTexts`).  What lines mean by name is told by these (`Means.map_some_labels`,
`Means.map_some_callLabels`).

Hence a document comes to the same functions and the same calls by name, or it is refused at the same
line: `Document.read_renamed`.
-/

namespace BenchCover

namespace CallGraph

def nameOf? (g : CallGraph) (id : FunctionId) : Option String :=
  (g.function? id).map (·.name)

/-- **The calls of a graph without ids**: the names of their ends, and times. -/
def callLabels (g : CallGraph) : List (Option String × Option String × Duration) :=
  g.calls.map fun call => (g.nameOf? call.caller, g.nameOf? call.callee, call.time)

lemma NamedBy.nameOf?_eq {g : CallGraph} {registry : Registry} (hg : g.NamedBy registry)
    {id : FunctionId} {name : String} (hid : id ∈ g.ids) (hname : registry.name id = .ok name) :
    g.nameOf? id = some name := by
  obtain ⟨f, hf, rfl⟩ := mem_ids_iff.1 hid
  rw [nameOf?, function?_eq_some_iff.2 ⟨hf, rfl⟩, Option.map_some,
    Except.ok.inj ((hg f hf).symm.trans hname)]

end CallGraph

namespace Dot

/-! ## Refusals -/

variable {rename : List Char → List Char} {P : Set (List Char)}

namespace Outline

variable {outline : Outline} {statement : Statement}

def withIdentifiers (rename : List Char → List Char) (outline : Outline) : Outline where
  functions := outline.functions
  identifiers := outline.identifiers.map rename

lemma require_agree (hrename : Set.InjOn rename P) (houtline : ∀ a ∈ outline.identifiers, a ∈ P)
    (which : CallEnd) {identifier : List Char} (hidentifier : identifier ∈ P) :
    Agree Refusals Eq (outline.require which identifier)
      ((outline.withIdentifiers rename).require which (rename identifier)) := by
  have hmem : rename identifier ∈ (outline.withIdentifiers rename).identifiers ↔
      identifier ∈ outline.identifiers := by
    rw [withIdentifiers, List.mem_map]
    constructor
    · rintro ⟨other, hother, hsame⟩
      rwa [← hrename (houtline other hother) hidentifier hsame]
    · exact fun h => ⟨identifier, h, rfl⟩
  rw [require, require]
  by_cases h : identifier ∈ outline.identifiers
  · rw [if_pos h, if_pos (hmem.2 h)]
    exact .value rfl
  · rw [if_neg h, if_neg (mt hmem.1 h)]
    exact .fault trivial

/-- **One statement** is refused where it is with other identifiers. -/
lemma apply_agree (hrename : Set.InjOn rename P) (houtline : ∀ a ∈ outline.identifiers, a ∈ P)
    (hstatement : ∀ a ∈ statement.identifiers, a ∈ P) :
    Agree Refusals (fun next next' => next' = next.withIdentifiers rename ∧
        ∀ a ∈ next.identifiers, a ∈ P)
      (outline.apply statement)
      ((outline.withIdentifiers rename).apply (statement.withIdentifiers rename)) := by
  cases statement with
  | nothing => exact .value ⟨rfl, houtline⟩
  | untipped => exact .value ⟨rfl, houtline⟩
  | node identifier function times =>
    refine .value ⟨rfl, fun a ha => ?_⟩
    rcases List.mem_cons.1 ha with rfl | ha
    · exact hstatement a List.mem_cons_self
    · exact houtline a ha
  | edge caller callee time =>
    have hcaller := require_agree hrename houtline .caller (hstatement caller List.mem_cons_self)
    have hcallee := require_agree hrename houtline .callee
      (hstatement callee (List.mem_cons_of_mem _ List.mem_cons_self))
    exact hcaller.bind fun _ _ _ => hcallee.bind fun _ _ _ =>
      (Agree.same (fun _ => trivial) time).bind fun _ _ _ => .value ⟨rfl, houtline⟩

end Outline

/-- **Faults at the same place**: in the same line, or for the file itself. -/
inductive DocumentFault.SamePlace : DocumentFault → DocumentFault → Prop
  | file (path : String) (cause : FileFault) : SamePlace (.file path cause) (.file path cause)
  | line (path : String) (number : ℕ) (cause cause' : LineFault) :
      SamePlace (.line path number cause) (.line path number cause')

namespace Document

/-- **A document with other identifiers.** -/
def renameLines (rename : List Char → List Char) (lines : Lines) : Lines :=
  lines.map (Option.map (Statement.renameLine rename))

end Document

/-- **A document is refused where it is with other identifiers.** -/
lemma Outline.readFrom_agree (hrename : Set.InjOn rename P)
    (hnew : ∀ a ∈ P, Statement.IsIdentifier (rename a)) {path : String} {number : ℕ}
    {outline : Outline} {lines : Document.Lines} (houtline : ∀ a ∈ outline.identifiers, a ∈ P)
    (hlines : ∀ line, some line ∈ lines → ∀ a ∈ Statement.identifiersOf line, a ∈ P) :
    Agree DocumentFault.SamePlace (fun next next' => next' = next.withIdentifiers rename)
      (readFrom path number outline lines)
      (readFrom path number (outline.withIdentifiers rename)
        (Document.renameLines rename lines)) := by
  induction lines generalizing number outline with
  | nil => exact .value rfl
  | cons first rest ih =>
    cases first with
    | none => exact .fault (.file _ _)
    | some line =>
      have hline := hlines line List.mem_cons_self
      have hread := (Statement.ofLine_renameLine fun a ha => hnew a (hline a ha)).bind
        fun statement statement' h => h.1 ▸ apply_agree hrename houtline fun a ha =>
          hline a (h.2 a ha)
      rw [readFrom, Document.renameLines, List.map_cons, Option.map_some, readFrom,
        ← Document.renameLines]
      generalize (Statement.ofLine line).bind outline.apply = result at hread ⊢
      generalize (Statement.ofLine (Statement.renameLine rename line)).bind
        (outline.withIdentifiers rename).apply = result' at hread ⊢
      cases hread with
      | value h =>
        obtain ⟨rfl, hnext⟩ := h
        exact ih hnext fun line hline => hlines line (List.mem_cons_of_mem _ hline)
      | fault _ => exact .fault (.line _ _ _ _)

/-! ## Meaning -/

/-- The lines of a document with other identifiers, if all of them are texts. -/
def renameTexts (rename : List Char → List Char) (lines : List (List Char)) : List (List Char) :=
  lines.map (Statement.renameLine rename)

/-- The identifiers of some lines are among those that get other ones. -/
def HasOnly (P : Set (List Char)) (lines : List (List Char)) : Prop :=
  ∀ line ∈ lines, ∀ a ∈ Statement.identifiersOf line, a ∈ P

def NodeLine.withIdentifier (rename : List Char → List Char) (node : NodeLine) : NodeLine :=
  { node with identifier := rename node.identifier }

section Meaning

variable {line : List Char} {lines above : List (List Char)} {a : List Char}

lemma nodeLine?_renameLine
    (hnew : ∀ a ∈ Statement.identifiersOf line, Statement.IsIdentifier (rename a)) :
    nodeLine? (Statement.renameLine rename line)
        = (nodeLine? line).map (NodeLine.withIdentifier rename) ∧
      ∀ node, nodeLine? line = some node → node.identifier ∈ Statement.identifiersOf line := by
  have hline := Statement.ofLine_renameLine hnew
  rw [nodeLine?, nodeLine?]
  generalize Statement.ofLine line = result at hline ⊢
  generalize Statement.ofLine (Statement.renameLine rename line) = result' at hline ⊢
  cases hline with
  | fault _ => exact ⟨rfl, by simp⟩
  | @value statement _ h =>
    obtain ⟨rfl, hhas⟩ := h
    cases statement with
    | nothing => exact ⟨rfl, by simp⟩
    | untipped => exact ⟨rfl, by simp⟩
    | edge caller callee time => exact ⟨rfl, by simp⟩
    | node identifier name times =>
      refine ⟨rfl, fun node hnode => ?_⟩
      obtain rfl := Option.some.inj hnode
      exact hhas identifier List.mem_cons_self

/-- **The node lines** are the same but for the identifiers. -/
lemma nodeLines_renameTexts (hnew : ∀ a ∈ P, Statement.IsIdentifier (rename a))
    (hlines : HasOnly P lines) :
    nodeLines (renameTexts rename lines)
        = (nodeLines lines).map (NodeLine.withIdentifier rename) ∧
      ∀ node ∈ nodeLines lines, node.identifier ∈ P := by
  have hline : ∀ line ∈ lines, nodeLine? (Statement.renameLine rename line)
        = (nodeLine? line).map (NodeLine.withIdentifier rename) ∧
      ∀ node, nodeLine? line = some node → node.identifier ∈ Statement.identifiersOf line :=
    fun line hmem => nodeLine?_renameLine fun a ha => hnew a (hlines line hmem a ha)
  constructor
  · rw [nodeLines, renameTexts, List.filterMap_map, nodeLines, List.map_filterMap]
    exact List.filterMap_congr fun line hmem => (hline line hmem).1
  · intro node hnode
    obtain ⟨line, hmem, hsome⟩ := List.mem_filterMap.1 hnode
    exact hlines line hmem _ ((hline line hmem).2 node hsome)

/-- An identifier stands for the same name under its other name. -/
lemma nameBelow_renameTexts (hrename : Set.InjOn rename P)
    (hnew : ∀ a ∈ P, Statement.IsIdentifier (rename a)) (habove : HasOnly P above) (ha : a ∈ P) :
    nameBelow (renameTexts rename above) (rename a) = nameBelow above a := by
  obtain ⟨hnodes, hmem⟩ := nodeLines_renameTexts hnew habove
  rw [nameBelow, nameBelow, hnodes, ← List.map_reverse, List.find?_map, Option.map_map]
  refine congrArg (Option.map _) (List.find?_congr fun node hnode => ?_)
  have hnode := hmem node (List.mem_reverse.1 hnode)
  exact decide_eq_decide.2 ⟨fun hsame => hrename hnode ha hsame, congrArg rename⟩

lemma callLine?_renameLine (hrename : Set.InjOn rename P)
    (hnew : ∀ a ∈ P, Statement.IsIdentifier (rename a)) (habove : HasOnly P above)
    (hline : ∀ a ∈ Statement.identifiersOf line, a ∈ P) :
    callLine? (renameTexts rename above) (Statement.renameLine rename line)
      = callLine? above line := by
  have hagree := Statement.ofLine_renameLine fun a ha => hnew a (hline a ha)
  rw [callLine?, callLine?]
  generalize Statement.ofLine line = result at hagree ⊢
  generalize Statement.ofLine (Statement.renameLine rename line) = result' at hagree ⊢
  cases hagree with
  | fault _ => rfl
  | @value statement _ h =>
    obtain ⟨rfl, hhas⟩ := h
    cases statement with
    | nothing => rfl
    | untipped => rfl
    | node identifier name times => rfl
    | edge caller callee time =>
      have hcaller := hline caller (hhas caller List.mem_cons_self)
      have hcallee := hline callee (hhas callee (List.mem_cons_of_mem _ List.mem_cons_self))
      cases time with
      | error cause => rfl
      | ok time =>
        simp only [Statement.withIdentifiers, nameBelow_renameTexts hrename hnew habove hcaller,
          nameBelow_renameTexts hrename hnew habove hcallee]

/-- **The edge lines** join the same names. -/
lemma callLines_renameTexts (hrename : Set.InjOn rename P)
    (hnew : ∀ a ∈ P, Statement.IsIdentifier (rename a)) (hlines : HasOnly P lines) :
    callLines (renameTexts rename lines) = callLines lines := by
  suffices hfrom : ∀ above, HasOnly P above →
      callLinesFrom (renameTexts rename above) (renameTexts rename lines)
        = callLinesFrom above lines from
    hfrom [] nofun
  induction lines with
  | nil => exact fun _ _ => rfl
  | cons line rest ih =>
    intro above habove
    have hline := hlines line List.mem_cons_self
    have hmore : HasOnly P (above ++ [line]) := by
      intro other hother
      rcases List.mem_append.1 hother with hother | hother
      · exact habove other hother
      · exact List.mem_singleton.1 hother ▸ hline
    have hconcat : renameTexts rename (above ++ [line])
        = renameTexts rename above ++ [Statement.renameLine rename line] :=
      List.map_append
    have hcons : renameTexts rename (line :: rest)
        = Statement.renameLine rename line :: renameTexts rename rest := List.map_cons
    rw [hcons, callLinesFrom, callLinesFrom, callLine?_renameLine hrename hnew habove hline,
      ← hconcat, ih (fun other hother => hlines other (List.mem_cons_of_mem _ hother)) _ hmore]

end Meaning

variable {known known' registry registry' : Registry} {g g' : CallGraph}
  {lines lines' : List (List Char)}

/-- **What lines mean by name** is told by their node lines and edge lines. -/
lemma Means.map_some_labels (h : Means known lines g registry) :
    g.labels.map some = (distinctNames lines).map fun name =>
      (firstTimes? lines name).map fun times => (name, times.selfTime, times.totalTime) := by
  rw [← List.forall₂_eq_eq_eq, CallGraph.labels, List.map_map, List.forall₂_map_left_iff,
    List.forall₂_map_right_iff]
  refine h.functions.flip.imp fun f name hf => ?_
  rw [hf.times_eq, ← hf.name_eq]
  rfl

lemma Means.map_some_callLabels (h : Means known lines g registry) (hg : g.NamedBy registry) :
    g.callLabels.map some = (distinctEnds lines).map fun ends =>
      (lastTime? lines ends).map fun time => (some ends.1, some ends.2, time) := by
  have hcalls := (List.forall₂_and_left (p := (· ∈ g.calls)) _ _).2 ⟨fun _ => id, h.calls.flip⟩
  rw [← List.forall₂_eq_eq_eq, CallGraph.callLabels, List.map_map, List.forall₂_map_left_iff,
    List.forall₂_map_right_iff]
  refine hcalls.imp fun call ends hcall => ?_
  obtain ⟨hmem, hcaller, hcallee, htime⟩ := hcall
  rw [htime, Option.map_some, Function.comp_apply, hg.nameOf?_eq (g.caller_mem call hmem) hcaller,
    hg.nameOf?_eq (g.callee_mem call hmem) hcallee]

/-- **Graphs that are the same by name**: they have the same functions and calls, in the same order,
whatever the ids are. -/
structure SameByName (g g' : CallGraph) : Prop where
  labels_eq : g.labels = g'.labels
  callLabels_eq : g.callLabels = g'.callLabels

/-- Lines with other identifiers mean the same by name. -/
lemma Means.sameByName {rename : List Char → List Char} {P : Set (List Char)}
    (hrename : Set.InjOn rename P) (hnew : ∀ a ∈ P, Statement.IsIdentifier (rename a))
    (hlines : HasOnly P lines) (h : Means known lines g registry)
    (h' : Means known' (renameTexts rename lines) g' registry')
    (hg : g.NamedBy registry) (hg' : g'.NamedBy registry') : SameByName g g' := by
  have hnodes := (nodeLines_renameTexts hnew hlines).1
  have hcalls := callLines_renameTexts hrename hnew hlines
  have hnames : distinctNames (renameTexts rename lines) = distinctNames lines := by
    rw [distinctNames, hnodes, List.map_map, distinctNames]
    rfl
  have hfirst : ∀ name, firstTimes? (renameTexts rename lines) name = firstTimes? lines name := by
    intro name
    rw [firstTimes?, hnodes, List.find?_map, Option.map_map, firstTimes?]
    rfl
  have hends : distinctEnds (renameTexts rename lines) = distinctEnds lines := by
    rw [distinctEnds, hcalls, distinctEnds]
  have hlast : ∀ ends, lastTime? (renameTexts rename lines) ends = lastTime? lines ends := by
    intro ends
    rw [lastTime?, hcalls, lastTime?]
  constructor
  · refine List.map_injective_iff.2 (Option.some_injective _) ?_
    rw [h.map_some_labels, h'.map_some_labels, hnames]
    simp only [hfirst]
  · refine List.map_injective_iff.2 (Option.some_injective _) ?_
    rw [h.map_some_callLabels hg, h'.map_some_callLabels hg', hends]
    simp only [hlast]

/-! ## Documents -/

namespace Document

open Statement (IsIdentifier)

variable {rename : List Char → List Char} {document : Lines}

/-- **The identifiers of a document.** -/
def identifiers (document : Lines) : List (List Char) :=
  (document.filterMap id).flatMap Statement.identifiersOf

lemma mem_identifiers_iff {a : List Char} :
    a ∈ identifiers document ↔ ∃ line, some line ∈ document ∧ a ∈ Statement.identifiersOf line := by
  simp [identifiers, List.mem_flatMap, List.mem_filterMap]

/-- **Other identifiers for a document**: different ones for different ones, each of which can stand in
front of an attribute list. -/
structure Renames (rename : List Char → List Char) (document : Lines) : Prop where
  injOn : ∀ a ∈ identifiers document, ∀ b ∈ identifiers document, rename a = rename b → a = b
  isIdentifier : ∀ a ∈ identifiers document, IsIdentifier (rename a)

lemma Renames.take (h : Renames rename document) (count : ℕ) :
    Renames rename (document.take count) := by
  have hsubset : identifiers (document.take count) ⊆ identifiers document := by
    intro a ha
    obtain ⟨line, hline, ha⟩ := mem_identifiers_iff.1 ha
    exact mem_identifiers_iff.2 ⟨line, List.mem_of_mem_take hline, ha⟩
  exact ⟨fun a ha b hb => h.injOn a (hsubset ha) b (hsubset hb),
    fun a ha => h.isIdentifier a (hsubset ha)⟩

/-- What a document that is accepted means, by names that are registered. -/
lemma exists_means_of_read {path : String} {known : Registry} {g : CallGraph}
    (hok : (read path known document).result = .ok g) :
    ∃ texts registry, document = texts.map some ∧ Means known texts g registry ∧
      g.NamedBy registry := by
  obtain ⟨texts, hdocument, -, hmeans⟩ :=
    means_of_readFrom (Reading.sound_start known) (Reading.after_start known) hok
  exact ⟨texts, _, hdocument, hmeans, namedBy_of_read hok⟩

lemma Renames.read_agree (h : Renames rename document) (path : String) (known known' : Registry) :
    Agree DocumentFault.SamePlace SameByName (read path known document).result
      (read path known' (renameLines rename document)).result := by
  have hinj : Set.InjOn rename {a | a ∈ identifiers document} := fun a ha b hb => h.injOn a ha b hb
  have hspec : (read path known document).result.map CallGraph.labels
      = (Outline.readFrom path 1 (Reading.start known).outline document).map (·.functions) :=
    (readFrom_spec (Reading.sound_start known)).2.2
  have hspec' : (read path known' (renameLines rename document)).result.map CallGraph.labels
      = (Outline.readFrom path 1 (Reading.start known').outline (renameLines rename document)).map
        (·.functions) :=
    (readFrom_spec (Reading.sound_start known')).2.2
  have hagree : Agree DocumentFault.SamePlace (fun next next' => next' = next.withIdentifiers rename)
      (Outline.readFrom path 1 (Reading.start known).outline document)
      (Outline.readFrom path 1 (Reading.start known').outline (renameLines rename document)) :=
    Outline.readFrom_agree hinj h.isIdentifier nofun fun line hline a ha =>
      mem_identifiers_iff.2 ⟨line, hline, ha⟩
  -- whether the readings agree is told by their outlines, which know neither registry
  have hlabels := hagree.map (·.functions) (·.functions)
  rw [← hspec, ← hspec'] at hlabels
  refine hlabels.of_map fun g g' hread hread' => ?_
  obtain ⟨texts, registry, rfl, hmeans, hnamed⟩ := exists_means_of_read hread
  obtain ⟨texts', registry', htexts', hmeans', hnamed'⟩ := exists_means_of_read hread'
  have htexts : texts' = renameTexts rename texts := by
    refine List.map_injective_iff.2 (Option.some_injective _) ?_
    rw [← htexts', renameLines, renameTexts, List.map_map, List.map_map]
    rfl
  have hlines : HasOnly {a | a ∈ identifiers (texts.map some)} texts := fun line hline a ha =>
    mem_identifiers_iff.2 ⟨line, List.mem_map_of_mem hline, ha⟩
  subst htexts
  exact hmeans.sameByName hinj h.isIdentifier hlines hmeans' hnamed hnamed'

/-- **Identifiers and registries are local to a reading.**  A document and the same one with other
identifiers, read with whatever registries, are both accepted or both refused:

* where they are accepted, their graphs have the same functions with the same times, and the same
  calls between functions of the same names with the same times, all in the same order;
* where they are refused, it is for the same line, or for the file at the same line: so many lines of
  one are accepted as of the other. -/
theorem read_renamed (path : String) (known known' : Registry) (document : Lines)
    (rename : List Char → List Char) (h : Renames rename document) :
    Agree DocumentFault.SamePlace SameByName (read path known document).result
        (read path known' (renameLines rename document)).result ∧
      ∀ count, (∃ g, (read path known (document.take count)).result = .ok g) ↔
        ∃ g, (read path known' ((renameLines rename document).take count)).result = .ok g := by
  refine ⟨h.read_agree path known known', fun count => ?_⟩
  have hagree := (h.take count).read_agree path known known'
  rw [renameLines, List.map_take, ← renameLines] at hagree
  generalize (read path known (document.take count)).result = result at hagree ⊢
  generalize (read path known' ((renameLines rename document).take count)).result = result'
    at hagree ⊢
  cases hagree with
  | value _ => exact iff_of_true ⟨_, rfl⟩ ⟨_, rfl⟩
  | fault _ => exact iff_of_false nofun nofun

/-- Takes the first two identifiers for each other. -/
def exchange (identifier : List Char) : List Char :=
  if identifier = ['N', '1'] then ['N', '2']
  else if identifier = ['N', '2'] then ['N', '1']
  else identifier

/-- The calls of a document that tells of functions twice, with its identifiers exchanged. -/
theorem read_renamed_exchange : Renames exchange retold ∧
    ∃ g, (read inMemory (Registry.empty.registerAll ["b", "a"]).1
        (renameLines exchange retold)).result = .ok g ∧
      g.callLabels = [(some "b", some "b", ⟨5000000000⟩)] := by
  have hrenames : Renames exchange retold := by
    have hidentifiers : identifiers retold ⊆ [['N', '1'], ['N', '2']] := by decide +kernel
    have hinj : ∀ a ∈ [['N', '1'], ['N', '2']], ∀ b ∈ [['N', '1'], ['N', '2']],
        exchange a = exchange b → a = b := by decide
    have hnew : ∀ a ∈ [['N', '1'], ['N', '2']], Statement.IsIdentifier (exchange a) := by decide
    exact ⟨fun a ha b hb => hinj a (hidentifiers ha) b (hidentifiers hb),
      fun a ha => hnew a (hidentifiers ha)⟩
  have hread : (match (read inMemory .empty retold).result with
      | .ok g => g.callLabels
      | .error _ => []) = [(some "b", some "b", ⟨5000000000⟩)] := by
    decide +kernel
  have hagree := (read_renamed inMemory .empty (Registry.empty.registerAll ["b", "a"]).1 retold
    exchange hrenames).1
  refine ⟨hrenames, ?_⟩
  generalize (read inMemory .empty retold).result = result at hread hagree
  generalize (read inMemory (Registry.empty.registerAll ["b", "a"]).1
    (renameLines exchange retold)).result = result' at hagree ⊢
  cases hagree with
  | value h => exact ⟨_, rfl, h.callLabels_eq.symm.trans hread⟩
  | fault _ => cases hread

end Document

end Dot

end BenchCover
