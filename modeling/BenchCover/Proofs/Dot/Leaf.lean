import BenchCover.Proofs.Dot.Refusal
import BenchCover.Proofs.Dot.RenderedLine

/-!
# Leaves

A function that calls no others is labelled with its package, its own text, its time and the share
of that time, and its tooltip joins the package and the function by a point.

**Labels.**  The line of a leaf tells the name in the tooltip (`Leaf.ofLine_line`) and, as a rule,
the one time in the label for both times of the function (`Leaf.ofLabel_label`).  The exception is
the text `of`, which stands in front of the total time in the labels of functions that do call
others: there the package is taken for the time of the function itself (`Leaf.ofLabel_label_of`).

**Documents.**  Functions of a document stay once they are there, with the times that came first:
`Reading.functions_prefix_apply` for one statement and `Document.functions_prefix_readFrom`
for all the lines below.  So a node line adds its function for good, unless the function is there
already (`Document.adds_of_ofLine`), and what a leaf adds is told by its label:
`Document.read_leaf`.
-/

namespace BenchCover.Dot

/-- A character that is no blank, and that means nothing in a line. -/
def IsPlain (c : Char) : Prop :=
  Text.isBlank c = false ∧ c ∉ ['"', '\\', '[', '=']

lemma notMem_of_plain {text : List Char} {c : Char} (htext : ∀ c ∈ text, IsPlain c)
    (hc : c ∈ ['"', '\\', '[', '=']) : c ∉ text :=
  fun hmem => (htext c hmem).2 hc

/-- A plain text is one word. -/
lemma split_of_plain {text : List Char} (htext : ∀ c ∈ text, IsPlain c) :
    Text.split [' '] text = [text] :=
  Text.split_of_notMem fun hmem => absurd (htext ' ' hmem).1 (by decide)

/-- **A leaf**: the texts that its label is made of, and the time that one of them stands for. -/
structure Leaf where
  package : String
  function : String
  timeText : String
  share : String
  time : Duration
  package_plain : ∀ c ∈ package.toList, IsPlain c
  function_plain : ∀ c ∈ function.toList, IsPlain c
  share_characters : ∀ c ∈ share.toList, c.isDigit = true ∨ c = '.' ∨ c = '%'
  timeText_parse : Duration.parse timeText = .ok time

namespace Leaf

def name (leaf : Leaf) : String :=
  s!"{leaf.package}.{leaf.function}"

/-- The node line of a leaf, where `i` numbers the nodes. -/
def line (i : ℕ) (leaf : Leaf) : String :=
  s!"N{i} [label=\"{leaf.package}\\n{leaf.function}\\n{leaf.timeText} ({leaf.share})\"" ++
    s!" tooltip=\"{leaf.name} ({leaf.timeText})\"]"

/-- **What is wrong with a leaf** whose package is taken for a time, where `cause` says why it is
none.  A package that starts with a bracket is passed over, and nothing stands in front of it. -/
def fault (leaf : Leaf) (cause : DurationFault) : LineFault :=
  if leaf.package.toList.head? = some '(' then
    .noTimes leaf.name s!"{leaf.package}\\n{leaf.function}\\n{leaf.timeText} ({leaf.share})"
  else
    .functionTime leaf.name .self leaf.package cause

/-! ## Lines of leaves -/

variable {leaf : Leaf} {i : ℕ} {c : Char}

/-- The time and its share. -/
def timePart (leaf : Leaf) : List Char :=
  leaf.timeText.toList ++ ' ' :: '(' :: (leaf.share.toList ++ [')'])

def label (leaf : Leaf) : List Char :=
  leaf.package.toList ++ '\\' :: 'n' :: (leaf.function.toList ++ '\\' :: 'n' :: leaf.timePart)

def tooltip (leaf : Leaf) : List Char :=
  leaf.name.toList ++ ' ' :: '(' :: (leaf.timeText.toList ++ [')'])

lemma toList_name (leaf : Leaf) :
    leaf.name.toList = leaf.package.toList ++ '.' :: leaf.function.toList := by
  have htext : ∀ s : String, toString s = s := fun _ => rfl
  simp [name, String.toList_append, htext]

lemma ofList_label (leaf : Leaf) : String.ofList leaf.label
    = s!"{leaf.package}\\n{leaf.function}\\n{leaf.timeText} ({leaf.share})" := by
  have htext : ∀ s : String, toString s = s := fun _ => rfl
  apply String.toList_inj.1
  simp [label, timePart, String.toList_append, htext]

lemma toList_line (leaf : Leaf) (i : ℕ) : (leaf.line i).toList
    = (identifier i ++ [' ']) ++ '[' :: nodeAttributes leaf.label leaf.tooltip := by
  have htext : ∀ s : String, toString s = s := fun _ => rfl
  unfold line
  simp [identifier, nodeAttributes, label, timePart, tooltip, labelKey, tooltipKey,
    String.toList_append, htext]

/-! ### Characters of a line -/

lemma plain_share : ∀ c ∈ leaf.share.toList, IsPlain c := by
  intro c hc
  rcases leaf.share_characters c hc with hdigit | rfl | rfl
  · exact plain_of_mem_characters c
      (Duration.mem_characters_of_isNumeric (Bool.or_eq_true_iff.2 (Or.inl hdigit)))
  · exact plain_of_mem_characters '.' (by decide)
  · exact ⟨by decide, by decide⟩

lemma plain_timeText : ∀ c ∈ leaf.timeText.toList, IsPlain c :=
  (plain_of_parse leaf.timeText_parse).2

lemma plain_name : ∀ c ∈ leaf.name.toList, IsPlain c := by
  intro c hc
  rw [toList_name, List.mem_append, List.mem_cons] at hc
  rcases hc with hpackage | rfl | hfunction
  · exact leaf.package_plain c hpackage
  · exact ⟨by decide, by decide⟩
  · exact leaf.function_plain c hfunction

lemma notMem_timePart (hc : c ∈ ['"', '\\', '[', '=']) : c ∉ leaf.timePart := by
  have htime := notMem_of_plain leaf.plain_timeText hc
  have hshare := notMem_of_plain leaf.plain_share hc
  fin_cases hc <;> simp [timePart, htime, hshare]

lemma notMem_label (hc : c ∈ ['"', '[', '=']) : c ∉ leaf.label := by
  have hspecial : c ∈ ['"', '\\', '[', '='] := by
    fin_cases hc <;> decide
  have hpackage := notMem_of_plain leaf.package_plain hspecial
  have hfunction := notMem_of_plain leaf.function_plain hspecial
  have htime := leaf.notMem_timePart hspecial
  fin_cases hc <;> simp [label, hpackage, hfunction, htime]

lemma notMem_tooltip (hc : c ∈ ['"', '\\', '[', '=']) : c ∉ leaf.tooltip := by
  have hname := notMem_of_plain leaf.plain_name hc
  have htime := notMem_of_plain leaf.plain_timeText hc
  fin_cases hc <;> simp [tooltip, hname, htime]

/-! ### What a line tells -/

/-- There are no type arguments in the line of a leaf. -/
lemma withoutTypeArguments_line : Statement.withoutTypeArguments (leaf.line i).toList
    = (identifier i ++ [' ']) ++ '[' :: nodeAttributes leaf.label leaf.tooltip := by
  obtain ⟨front, back, hfront, hback, hsplit⟩ : ∃ front back, ']' ∉ front ∧ '[' ∉ back ∧
      (identifier i ++ [' ']) ++ '[' :: nodeAttributes leaf.label leaf.tooltip
        = front ++ '"' :: back := by
    refine ⟨identifier i ++ ' ' :: '[' :: labelKey,
      leaf.label ++ '"' :: ' ' :: (tooltipKey ++ '"' :: (leaf.tooltip ++ ['"', ']'])), ?_, ?_, ?_⟩
    · simp [notMem_identifier, labelKey]
    · simp [notMem_label, notMem_tooltip, tooltipKey]
    · simp [nodeAttributes]
  rw [toList_line, hsplit, withoutTypeArguments_quote hfront hback]

lemma takeQuoted_label (rest : List Char) :
    takeQuoted (leaf.label ++ '"' :: rest) = leaf.label := by
  have hplain : ∀ {text : List Char}, (∀ c ∈ text, IsPlain c) → ∀ after,
      takeQuoted (text ++ after) = text ++ takeQuoted after := fun htext =>
    takeQuoted_append (notMem_of_plain htext (by simp)) (notMem_of_plain htext (by simp))
  simp only [label, List.append_assoc, List.cons_append]
  rw [hplain leaf.package_plain, takeQuoted_escape, hplain leaf.function_plain, takeQuoted_escape,
    takeQuoted_append (notMem_timePart (by simp)) (notMem_timePart (by simp)), takeQuoted_quote,
    List.append_nil]

/-- **The line of a leaf tells** its name, and the times in its label. -/
lemma ofLine_line : Statement.ofLine (leaf.line i).toList
    = (Times.ofLabel leaf.name leaf.label).bind
        fun times => .ok (.node (identifier i) leaf.name times) := by
  have hhead : (leaf.line i).toList.head? = some 'N' := by
    rw [toList_line]
    rfl
  have hname : Statement.nameOf leaf.tooltip = leaf.name.toList :=
    nameOf_append_cons (fun c hc => (leaf.plain_name c hc).1) _
  have hne : Statement.nameOf leaf.tooltip ≠ [] := by
    rw [hname, toList_name]
    exact List.append_ne_nil_of_right_ne_nil _ (List.cons_ne_nil _ _)
  rw [ofLine_node hhead withoutTypeArguments_line (attribute?_label takeQuoted_label)
    (attribute?_tooltip (notMem_label (by simp)) (notMem_tooltip (by simp))
      (notMem_tooltip (by simp))) hne, hname, String.ofList_toList]

/-! ### The times in a label -/

/-- **The words of a label.** -/
lemma labelWords_label : labelWords leaf.label = [leaf.package.toList, leaf.function.toList,
    leaf.timeText.toList, '(' :: (leaf.share.toList ++ [')'])] := by
  have hshare : ' ' ∉ '(' :: (leaf.share.toList ++ [')']) := by
    have hmem : ' ' ∉ leaf.share.toList := fun hmem =>
      absurd (leaf.plain_share ' ' hmem).1 (by decide)
    simp [hmem]
  rw [label, labelWords_append (notMem_of_plain leaf.package_plain (by decide)),
    labelWords_append (notMem_of_plain leaf.function_plain (by decide)),
    labelWords_of_notMem (notMem_timePart (by decide)), timePart, Text.split_append_cons,
    split_of_plain leaf.package_plain, split_of_plain leaf.function_plain,
    split_of_plain leaf.plain_timeText, Text.split_of_notMem hshare]
  rfl

lemma readTime_timeText (function : String) (which : TimeKind) :
    readTime function which leaf.timeText.toList = .ok leaf.time := by
  rw [readTime, String.ofList_toList, leaf.timeText_parse]
  rfl

/-- **The time of a leaf is its own and its total time**, unless its function is called `of`. -/
lemma ofLabel_label (hof : leaf.function ≠ "of") (function : String) :
    Times.ofLabel function leaf.label = .ok ⟨leaf.time, leaf.time⟩ := by
  have hother : leaf.function.toList ≠ ['o', 'f'] := fun hsame =>
    hof (String.toList_inj.1 hsame)
  have hwords : (labelWords leaf.label).reverse = ('(' :: (leaf.share.toList ++ [')'])) ::
      leaf.timeText.toList :: [leaf.function.toList, leaf.package.toList] := by
    rw [labelWords_label]
    rfl
  rw [Times.ofLabel_of_reverse_leaf hwords fun self before hsame =>
    hother (List.cons.inj hsame).1, readTime_timeText]
  rfl

/-- **The package is taken for a time** if the function is called `of`. -/
lemma ofLabel_label_of (hof : leaf.function = "of") :
    Times.ofLabel leaf.name leaf.label
      = ((Duration.parse leaf.package).mapError leaf.fault).map (⟨·, leaf.time⟩) := by
  have hwords : (labelWords leaf.label).reverse = ('(' :: (leaf.share.toList ++ [')'])) ::
      leaf.timeText.toList :: ['o', 'f'] :: [leaf.package.toList] := by
    rw [labelWords_label, hof]
    rfl
  rw [Times.ofLabel_of_reverse hwords, readTime_timeText, selfWord?_cons, ofList_label]
  by_cases hbracket : leaf.package.toList.head? = some '('
  · rw [if_pos hbracket]
    cases hparse : Duration.parse leaf.package with
    | ok selfTime =>
      have hmem := (Duration.mem_characters_of_parse hparse).2 '(' (List.mem_of_head? hbracket)
      exact absurd hmem (by decide)
    | error cause =>
      show _ = Except.error (leaf.fault cause)
      rw [fault, if_pos hbracket]
      rfl
  · rw [if_neg hbracket]
    show (readTime leaf.name .self leaf.package.toList).bind _ = _
    rw [readTime, String.ofList_toList]
    cases Duration.parse leaf.package with
    | ok selfTime => rfl
    | error cause =>
      show _ = Except.error (leaf.fault cause)
      rw [fault, if_neg hbracket]
      rfl

end Leaf

/-! ## Functions that stay -/

namespace Reading

variable {reading next : Reading} {number : ℕ}

/-- **A statement keeps the functions in front**, with their times. -/
lemma functions_prefix_apply {statement : Statement}
    (hok : reading.apply number statement = .ok next) :
    reading.graph.functions <+: next.graph.functions := by
  cases statement with
  | nothing =>
    obtain rfl := Except.ok.inj hok
    exact List.prefix_refl _
  | untipped =>
    obtain rfl := Except.ok.inj hok
    exact List.prefix_refl _
  | node identifier function times =>
    obtain rfl := Except.ok.inj hok
    show _ <+: (reading.graph.addFunction _).functions
    rw [CallGraph.addFunction]
    split_ifs
    · exact List.prefix_refl _
    · exact List.prefix_append _ _
  | edge caller callee time =>
    obtain ⟨a, b, duration, graph, -, -, -, hset, rfl⟩ := addEdge_eq_ok_iff.1 hok
    show _ <+: graph.functions
    rw [(CallGraph.eq_of_setCall hset).1]

/-- A node of a new name adds its function behind the others. -/
lemma Sound.functions_addNode (h : reading.Sound) {name : String}
    (htrimmed : Text.trimmed name = name) (hnew : name ∉ reading.graph.functions.map (·.name))
    (identifier : List Char) (times : Times) :
    (reading.addNode identifier name times).graph.functions = reading.graph.functions ++
      [⟨(reading.registry.register name).2, name, times.selfTime, times.totalTime⟩] := by
  have hid : (reading.registry.register name).2 ∉ reading.graph.ids := by
    rw [h.mem_ids_register_iff, htrimmed]
    simpa [CallGraph.labels] using hnew
  have hgraph : (reading.addNode identifier name times).graph = reading.graph.addFunction
      ⟨(reading.registry.register name).2, Text.trimmed name, times.selfTime, times.totalTime⟩ :=
    rfl
  rw [hgraph, CallGraph.functions_addFunction hid, htrimmed]

end Reading

namespace Document

variable {path : String} {known : Registry} {number : ℕ} {reading : Reading} {above lines : Lines}
  {line : List Char} {g : CallGraph}

lemma functions_prefix_readFrom (hok : (readFrom path number reading lines).result = .ok g) :
    reading.graph.functions <+: g.functions := by
  fun_induction readFrom path number reading lines with
  | case1 number reading =>
    obtain rfl := Except.ok.inj hok
    exact List.prefix_refl _
  | case2 => cases hok
  | case3 => cases hok
  | case4 number reading line rest next hline ih =>
    obtain ⟨statement, -, happly⟩ := Reading.readLine_eq_ok_iff.1 hline
    exact (Reading.functions_prefix_apply happly).trans (ih hok)

/-! ## Below lines that are read -/

/-- **What follows lines that are read** is read from where they have led. -/
lemma exists_reading_of_read (hok : (read path known above).result = .ok g) :
    ∃ reading : Reading, reading.Sound ∧ reading.graph = g ∧ ∀ below,
      read path known (above ++ below) = readFrom path (above.length + 1) reading below := by
  have hsound := Reading.sound_start known
  have hafter := Reading.after_start known
  obtain ⟨texts, rfl, -⟩ := means_of_readFrom hsound hafter hok
  obtain ⟨reading, hreading, -, -, hbelow⟩ := exists_reading_of_ok hsound hafter hok
  have hend := hbelow []
  rw [List.append_nil] at hend
  refine ⟨reading, hreading, ?_, fun below => ?_⟩
  · have hgraph : (readFrom path (1 + texts.length) reading []).result = .ok g := hend ▸ hok
    exact Except.ok.inj hgraph
  · rw [List.length_map, Nat.add_comm]
    exact hbelow below

/-- **A line adds a function** to the graph `g` of the lines above it: it is read, the function
joins the others under the id of its name, no call changes, and the functions stay whatever lines
follow. -/
def Adds (path : String) (known : Registry) (above : Lines) (line : List Char) (g : CallGraph)
    (name : String) (times : Times) : Prop :=
  ∃ (id : FunctionId) (next : CallGraph),
    (read path known (above ++ [some line])).result = .ok next ∧
    (read path known (above ++ [some line])).registry.name id = .ok name ∧
    next.functions = g.functions ++ [⟨id, name, times.selfTime, times.totalTime⟩] ∧
    next.calls = g.calls ∧
    ∀ below last, (read path known (above ++ some line :: below)).result = .ok last →
      next.functions <+: last.functions

/-- **A node line adds its function**, if it is new. -/
lemma adds_of_ofLine (hok : (read path known above).result = .ok g) {identifier : List Char}
    {name : String} {times : Times}
    (hline : Statement.ofLine line = .ok (.node identifier name times))
    (htrimmed : Text.trimmed name = name) (hnew : name ∉ g.functions.map (·.name)) :
    Adds path known above line g name times := by
  obtain ⟨reading, hsound, rfl, hbelow⟩ := exists_reading_of_read hok
  set next := reading.addNode identifier name times
  have hnext : ∀ below, read path known (above ++ some line :: below)
      = readFrom path (above.length + 1 + 1) next below := by
    intro below
    have hread : reading.readLine (above.length + 1) line = .ok next :=
      Reading.readLine_eq_ok_iff.2 ⟨_, hline, rfl⟩
    rw [hbelow, readFrom, hread]
  have hend : read path known (above ++ [some line]) = finish next (.ok next.graph) := hnext []
  refine ⟨_, next.graph, by rw [hend]; rfl, ?_, hsound.functions_addNode htrimmed hnew _ _,
    CallGraph.calls_addFunction _ _, fun below last hlast => ?_⟩
  · rw [hend]
    exact (Registry.name_register _ _).trans (congrArg Except.ok htrimmed)
  · rw [hnext] at hlast
    exact functions_prefix_readFrom hlast

/-- **A line that is refused** is where reading stops. -/
lemma read_eq_error_of_ofLine (hok : (read path known above).result = .ok g) {cause : LineFault}
    (hline : Statement.ofLine line = .error cause) (below : Lines) :
    (read path known (above ++ some line :: below)).result
      = .error (.line path (above.length + 1) cause) := by
  obtain ⟨reading, -, -, hbelow⟩ := exists_reading_of_read hok
  have hread : reading.readLine (above.length + 1) line = .error cause := by
    rw [Reading.readLine, hline]
    rfl
  rw [hbelow, readFrom, hread]
  rfl

/-- **A leaf adds its function with its one time for both**, below lines that are read and do not
have the function, whatever names are known.  The one exception is a function that is called `of`:
its label is read as that of a function that calls others, with the package for the time of the
function itself, and the line is refused if the package is no duration. -/
theorem read_leaf (path : String) (known : Registry) {above : Lines} {g : CallGraph} (leaf : Leaf)
    (i : ℕ) (hok : (read path known above).result = .ok g)
    (hnew : leaf.name ∉ g.functions.map (·.name)) :
    (leaf.function ≠ "of" →
      Adds path known above (leaf.line i).toList g leaf.name ⟨leaf.time, leaf.time⟩) ∧
    (leaf.function = "of" →
      (∀ selfTime, Duration.parse leaf.package = .ok selfTime →
        Adds path known above (leaf.line i).toList g leaf.name ⟨selfTime, leaf.time⟩) ∧
      ∀ cause, Duration.parse leaf.package = .error cause → ∀ below,
        (read path known (above ++ some (leaf.line i).toList :: below)).result
          = .error (.line path (above.length + 1) (leaf.fault cause))) := by
  have htrimmed : Text.trimmed leaf.name = leaf.name := by
    rw [Text.trimmed, Text.trim_of_forall fun c hc => (leaf.plain_name c hc).1,
      String.ofList_toList]
  have hadds : ∀ times, Times.ofLabel leaf.name leaf.label = .ok times →
      Adds path known above (leaf.line i).toList g leaf.name times := by
    intro times htimes
    have hline : Statement.ofLine (leaf.line i).toList
        = .ok (.node (identifier i) leaf.name times) := by
      rw [Leaf.ofLine_line, htimes]
      rfl
    exact adds_of_ofLine hok hline htrimmed hnew
  refine ⟨fun hof => hadds _ (Leaf.ofLabel_label hof _), fun hof => ⟨?_, ?_⟩⟩
  · intro selfTime hparse
    exact hadds _ (by rw [Leaf.ofLabel_label_of hof, hparse]; rfl)
  · intro cause hparse below
    refine read_eq_error_of_ofLine hok ?_ below
    rw [Leaf.ofLine_line, Leaf.ofLabel_label_of hof, hparse]
    rfl

/-- A leaf whose function has an ordinary name. -/
def sliceLeaf : Leaf where
  package := "sort"
  function := "Slice"
  timeText := "1.5s"
  share := "37.5%"
  time := ⟨1500000000⟩
  package_plain := by simp [IsPlain, Text.isBlank, Text.blankRanges]
  function_plain := by simp [IsPlain, Text.isBlank, Text.blankRanges]
  share_characters := by simp [Char.isDigit]
  timeText_parse := by decide

/-- A leaf whose function is called `of`. -/
def leafOf (package : String) (hpackage : ∀ c ∈ package.toList, IsPlain c) : Leaf where
  package
  function := "of"
  timeText := "20ms"
  share := "2%"
  time := ⟨20000000⟩
  package_plain := hpackage
  function_plain := by simp [IsPlain, Text.isBlank, Text.blankRanges]
  share_characters := by simp [Char.isDigit]
  timeText_parse := by decide

/-- A leaf whose package is a duration. -/
def minutesLeaf : Leaf :=
  leafOf "2m" (by simp [IsPlain, Text.isBlank, Text.blankRanges])

/-- A leaf whose package is no duration. -/
def packageLeaf : Leaf :=
  leafOf "p" (by simp [IsPlain, Text.isBlank, Text.blankRanges])

theorem read_leaf_slice :
    let known := (Registry.empty.registerAll ["x", "2m.of"]).1
    let above : Lines := [some "digraph".toList]
    let below := above ++ [some (sliceLeaf.line 1).toList]
    (read inMemory known above).result = .ok .empty ∧
    sliceLeaf.name ∉ CallGraph.empty.functions.map (·.name) ∧ sliceLeaf.function ≠ "of" ∧
    Adds inMemory known above (sliceLeaf.line 1).toList .empty "sort.Slice"
      ⟨⟨1500000000⟩, ⟨1500000000⟩⟩ ∧
    ∃ g, (read inMemory known below).result = .ok g ∧
      minutesLeaf.name ∉ g.functions.map (·.name) ∧ minutesLeaf.function = "of" ∧
      Adds inMemory known below (minutesLeaf.line 2).toList g "2m.of"
        ⟨⟨120000000000⟩, ⟨20000000⟩⟩ := by
  intro known above below
  have habove : (read inMemory known above).result = .ok .empty := rfl
  have hslice : sliceLeaf.function ≠ "of" := by decide
  have hadds := (read_leaf inMemory known sliceLeaf 1 habove List.not_mem_nil).1 hslice
  obtain ⟨id, g, hok, -, hfunctions, -⟩ := id hadds
  have hnew : minutesLeaf.name ∉ g.functions.map (·.name) := by
    have hother : minutesLeaf.name ≠ sliceLeaf.name := by decide
    simpa [hfunctions, CallGraph.empty] using hother
  have hparse : Duration.parse minutesLeaf.package = .ok ⟨120000000000⟩ := by decide
  exact ⟨habove, List.not_mem_nil, hslice, hadds, g, hok, hnew, rfl,
    ((read_leaf inMemory known minutesLeaf 2 hok hnew).2 rfl).1 _ hparse⟩

/-- The label of a leaf does not tell its time if the function is called `of`. -/
theorem read_leaf_of :
    packageLeaf.line 1 = "N1 [label=\"p\\nof\\n20ms (2%)\" tooltip=\"p.of (20ms)\"]" ∧
    (read inMemory .empty []).result = .ok .empty ∧
    packageLeaf.name ∉ CallGraph.empty.functions.map (·.name) ∧
    (read inMemory .empty [some (packageLeaf.line 1).toList]).result
      = .error (.line inMemory 1 (.functionTime "p.of" .self "p" (.invalid "p"))) ∧
    ¬ Adds inMemory .empty [] (packageLeaf.line 1).toList .empty packageLeaf.name
      ⟨packageLeaf.time, packageLeaf.time⟩ := by
  have hempty : (read inMemory .empty []).result = .ok .empty := rfl
  have hparse : Duration.parse packageLeaf.package = .error (.invalid "p") := by decide
  have hline : Statement.ofLine (packageLeaf.line 1).toList
      = .error (.functionTime "p.of" .self "p" (.invalid "p")) := by
    rw [Leaf.ofLine_line, Leaf.ofLabel_label_of rfl, hparse]
    rfl
  have hrefused : (read inMemory .empty [some (packageLeaf.line 1).toList]).result
      = .error (.line inMemory 1 (.functionTime "p.of" .self "p" (.invalid "p"))) :=
    read_eq_error_of_ofLine hempty hline []
  refine ⟨by decide, hempty, List.not_mem_nil, hrefused, ?_⟩
  rintro ⟨id, next, hok, -⟩
  cases hok.symm.trans hrefused

end Document

end BenchCover.Dot
