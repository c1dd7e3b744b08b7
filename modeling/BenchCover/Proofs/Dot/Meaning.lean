import BenchCover.Proofs.Dot.Reading
import BenchCover.Proofs.Text.Blank
import BenchCover.Proofs.Text.Pieces
import Mathlib.Data.List.Forall2

/-!
# What a document means

Reading a document goes line by line, with identifiers that may be taken anew, functions that may
be told more than once and calls that may be replaced.  Here the graph is told from the lines as a
whole.

**Lines.**  What stands in front of the first bracket decides whether a line is a node line or an
edge line (`IsNodeLine`, `IsEdgeLine`).  An identifier of an edge stands for the function of the
latest node line above it that has the identifier (`nameBelow`).

**Documents.**  The functions of the graph are the distinct names of the node lines, each with the
times of the first line that has it.  The calls are the distinct ends of the edge lines, each with
the time of the last one.  Both stand in the order of their first lines.  That is `Means`; one more
line keeps it (`Reading.After.readLine`), and so the graph of a document has it:
`Document.read_means`.
-/

namespace BenchCover.Dot

variable {line head list : List Char} {above lines : List (List Char)}

/-! ## Lines -/

/-- **A node line** starts with `N`; in front of its first bracket there is no arrow, and behind it
there is a tooltip. -/
def IsNodeLine (line : List Char) : Prop :=
  line.head? = some 'N' ∧ ∃ head list,
    Text.cutFirst '[' (Statement.withoutTypeArguments line) = some (head, list) ∧
      ¬ Statement.arrow <:+: head ∧ "tooltip".toList <:+: list

/-- **An edge line** starts with `N` and has an arrow in front of its first bracket. -/
def IsEdgeLine (line : List Char) : Prop :=
  line.head? = some 'N' ∧ ∃ head list,
    Text.cutFirst '[' (Statement.withoutTypeArguments line) = some (head, list) ∧
      Statement.arrow <:+: head

structure NodeLine where
  identifier : List Char
  name : String
  times : Times

/-- What a node line tells. -/
def nodeLine? (line : List Char) : Option NodeLine :=
  match Statement.ofLine line with
  | .ok (.node identifier name times) => some ⟨identifier, name, times⟩
  | _ => none

def nodeLines (lines : List (List Char)) : List NodeLine :=
  lines.filterMap nodeLine?

/-- **The name that an identifier stands for below some lines**: that of the latest node line. -/
def nameBelow (above : List (List Char)) (identifier : List Char) : Option String :=
  ((nodeLines above).reverse.find? (·.identifier = identifier)).map (·.name)

structure CallLine where
  caller : String
  callee : String
  time : Duration

def CallLine.ends (call : CallLine) : String × String :=
  (call.caller, call.callee)

/-- What an edge line tells below some lines. -/
def callLine? (above : List (List Char)) (line : List Char) : Option CallLine :=
  match Statement.ofLine line with
  | .ok (.edge caller callee (.ok time)) => do
    let caller ← nameBelow above caller
    let callee ← nameBelow above callee
    return ⟨caller, callee, time⟩
  | _ => none

def callLinesFrom (above : List (List Char)) : List (List Char) → List CallLine
  | [] => []
  | line :: rest => (callLine? above line).toList ++ callLinesFrom (above ++ [line]) rest

/-- What the edge lines tell, each below the lines in front of it. -/
def callLines (lines : List (List Char)) : List CallLine :=
  callLinesFrom [] lines

/-- **Lines that are told apart**: a line that is a node line by its look tells a node, one that is
an edge line by its look tells a call, and no other line does. -/
structure Accepted (lines : List (List Char)) : Prop where
  node : ∀ line ∈ lines, IsNodeLine line ↔ ∃ node, nodeLine? line = some node
  edge : ∀ above line below, lines = above ++ line :: below →
    (IsEdgeLine line ↔ ∃ call, callLine? above line = some call)

/-! ### What lines look like and what they tell -/

/-- The look of a line that starts with `N` is told by its first bracket. -/
lemma isNodeLine_iff_of_cut (hhead : line.head? = some 'N')
    (hcut : Text.cutFirst '[' (Statement.withoutTypeArguments line) = some (head, list)) :
    (IsNodeLine line ↔ ¬ Statement.arrow <:+: head ∧ "tooltip".toList <:+: list) ∧
      (IsEdgeLine line ↔ Statement.arrow <:+: head) := by
  simp [IsNodeLine, IsEdgeLine, hhead, hcut]

lemma contains_arrow_trim_iff : Text.contains Statement.arrow (Text.trim head) = true ↔
    Statement.arrow <:+: head :=
  Text.contains_iff.trans (Text.infix_trim_iff (by decide)
    (by simp [Statement.arrow, Text.isBlank, Text.blankRanges]))

lemma contains_tooltip_trim_iff : Text.contains "tooltip".toList (Text.trim list) = true ↔
    "tooltip".toList <:+: list :=
  Text.contains_iff.trans (Text.infix_trim_iff (by decide)
    (by simp [Text.isBlank, Text.blankRanges]))

/-- **A line that is not refused says what it looks like**, and the name of a node is trimmed. -/
lemma look_of_ofLine {statement : Statement} (hok : Statement.ofLine line = .ok statement) :
    (IsNodeLine line ↔ ∃ identifier name times, statement = .node identifier name times) ∧
    (IsEdgeLine line ↔ ∃ caller callee time, statement = .edge caller callee time) ∧
    ∀ identifier name times, statement = .node identifier name times →
      Text.trimmed name = name := by
  by_cases hhead : line.head? = some 'N'
  case neg =>
    obtain rfl := Except.ok.inj ((Statement.ofLine_of_head hhead).symm.trans hok)
    simp [IsNodeLine, IsEdgeLine, hhead]
  obtain ⟨head, list, hcut⟩ := Statement.exists_cut_of_ofLine hhead hok
  obtain ⟨hnode, hedge⟩ := isNodeLine_iff_of_cut hhead hcut
  rw [hnode, hedge]
  rw [Statement.ofLine_of_cut hhead hcut] at hok
  split_ifs at hok with harrow htooltip
  · obtain ⟨caller, callee, time, rfl⟩ := Statement.exists_of_ofEdge hok
    have harrow := contains_arrow_trim_iff.1 harrow
    exact ⟨iff_of_false (fun h => h.1 harrow) (by simp), iff_of_true harrow ⟨_, _, _, rfl⟩, by simp⟩
  · obtain rfl := Except.ok.inj hok
    have harrow : ¬ Statement.arrow <:+: head := mt contains_arrow_trim_iff.2 harrow
    have htip : ¬ "tooltip".toList <:+: list :=
      mt contains_tooltip_trim_iff.2 (by simpa using htooltip)
    exact ⟨iff_of_false (fun h => htip h.2) (by simp), iff_of_false harrow (by simp), by simp⟩
  · obtain ⟨tooltip, label, times, -, -, -, -, rfl⟩ := Statement.ofNode_eq_ok_iff.1 hok
    have harrow : ¬ Statement.arrow <:+: head := mt contains_arrow_trim_iff.2 harrow
    have htip : "tooltip".toList <:+: list := contains_tooltip_trim_iff.1 (by simpa using htooltip)
    refine ⟨iff_of_true ⟨harrow, htip⟩ ⟨_, _, _, rfl⟩, iff_of_false harrow (by simp), ?_⟩
    rintro _ _ _ ⟨⟩
    simp [Text.trimmed, Statement.nameOf]

/-! ### One line more -/

lemma nodeLines_concat (lines : List (List Char)) (line : List Char) :
    nodeLines (lines ++ [line]) = nodeLines lines ++ (nodeLine? line).toList := by
  rw [nodeLines, List.filterMap_append, ← nodeLines]
  cases hnode : nodeLine? line <;> simp [hnode]

lemma nodeLines_concat_of_none (hnode : nodeLine? line = none) :
    nodeLines (lines ++ [line]) = nodeLines lines := by
  rw [nodeLines_concat, hnode, Option.toList_none, List.append_nil]

lemma callLinesFrom_append (above lines others : List (List Char)) :
    callLinesFrom above (lines ++ others)
      = callLinesFrom above lines ++ callLinesFrom (above ++ lines) others := by
  induction lines generalizing above with
  | nil => simp [callLinesFrom]
  | cons line rest ih =>
    rw [List.cons_append, callLinesFrom, ih, callLinesFrom, List.append_assoc, List.append_assoc,
      List.singleton_append]

lemma callLines_concat (lines : List (List Char)) (line : List Char) :
    callLines (lines ++ [line]) = callLines lines ++ (callLine? lines line).toList := by
  rw [callLines, callLinesFrom_append, callLinesFrom, callLinesFrom, List.append_nil,
    List.nil_append, callLines]

lemma callLines_concat_of_none (hcall : callLine? lines line = none) :
    callLines (lines ++ [line]) = callLines lines := by
  rw [callLines_concat, hcall, Option.toList_none, List.append_nil]

lemma Accepted.concat (h : Accepted lines)
    (hnode : IsNodeLine line ↔ ∃ node, nodeLine? line = some node)
    (hedge : IsEdgeLine line ↔ ∃ call, callLine? lines line = some call) :
    Accepted (lines ++ [line]) where
  node := by
    intro other hother
    rcases List.mem_append.1 hother with hother | hother
    · exact h.node other hother
    · obtain rfl := List.mem_singleton.1 hother
      exact hnode
  edge := by
    intro above other below hsplit
    rcases List.eq_nil_or_concat below with rfl | ⟨rest, last, rfl⟩
    · obtain ⟨rfl, hlast⟩ := List.append_inj' hsplit rfl
      obtain rfl := List.singleton_inj.1 hlast
      exact hedge
    · rw [List.concat_eq_append, ← List.cons_append, ← List.append_assoc] at hsplit
      exact h.edge above other rest (List.append_inj' hsplit rfl).1

/-! ## What the lines come to -/

/-- The names of the node lines, each where it comes first. -/
def distinctNames (lines : List (List Char)) : List String :=
  ((nodeLines lines).map (·.name)).eraseDups

/-- The times in the first node line of a name. -/
def firstTimes? (lines : List (List Char)) (name : String) : Option Times :=
  ((nodeLines lines).find? (·.name = name)).map (·.times)

/-- The ends of the edge lines, each where they come first. -/
def distinctEnds (lines : List (List Char)) : List (String × String) :=
  ((callLines lines).map (·.ends)).eraseDups

/-- The time in the last edge line with these ends. -/
def lastTime? (lines : List (List Char)) (ends : String × String) : Option Duration :=
  ((callLines lines).reverse.find? (·.ends = ends)).map (·.time)

/-- **The function that the node lines of a name tell**, with the id that the name has. -/
structure FunctionMeans (lines : List (List Char)) (registry : Registry) (name : String)
    (f : Function) : Prop where
  name_eq : f.name = name
  id_eq : registry.name f.id = .ok name
  times_eq : firstTimes? lines name = some ⟨f.selfTime, f.totalTime⟩

/-- **The call that the edge lines of two ends tell**, between the functions with these names. -/
structure CallMeans (lines : List (List Char)) (registry : Registry) (ends : String × String)
    (call : Call) : Prop where
  caller_eq : registry.name call.caller = .ok ends.1
  callee_eq : registry.name call.callee = .ok ends.2
  time_eq : lastTime? lines ends = some call.time

/-- **What lines mean**: the functions and the calls that they tell of, in the order in which they
come first, and the registry of the names that were known before and then of those that are new. -/
structure Means (known : Registry) (lines : List (List Char)) (g : CallGraph)
    (registry : Registry) : Prop where
  functions : List.Forall₂ (FunctionMeans lines registry) (distinctNames lines) g.functions
  calls : List.Forall₂ (CallMeans lines registry) (distinctEnds lines) g.calls
  names : registry.names = known.names ++ (distinctNames lines).filter (· ∉ known.names)

variable {known registry registry' : Registry} {node : NodeLine} {call : CallLine}

/-- What node lines tell is told by the node lines, whatever other lines there are. -/
lemma forall₂_functionMeans {lines' : List (List Char)} {functions : List Function}
    (hlines : nodeLines lines' = nodeLines lines) (hextends : registry.Extends registry')
    (h : List.Forall₂ (FunctionMeans lines registry) (distinctNames lines) functions) :
    List.Forall₂ (FunctionMeans lines' registry') (distinctNames lines') functions := by
  rw [distinctNames, hlines, ← distinctNames]
  refine h.imp fun name f hf => ⟨hf.name_eq, hextends.keeps_name hf.id_eq, ?_⟩
  rw [firstTimes?, hlines]
  exact hf.times_eq

/-- What edge lines tell is told by the edge lines, whatever other lines there are. -/
lemma forall₂_callMeans {lines' : List (List Char)} {calls : List Call}
    (hlines : callLines lines' = callLines lines) (hextends : registry.Extends registry')
    (h : List.Forall₂ (CallMeans lines registry) (distinctEnds lines) calls) :
    List.Forall₂ (CallMeans lines' registry') (distinctEnds lines') calls := by
  rw [distinctEnds, hlines, ← distinctEnds]
  refine h.imp fun ends call hcall => ⟨hextends.keeps_name hcall.caller_eq,
    hextends.keeps_name hcall.callee_eq, ?_⟩
  rw [lastTime?, hlines]
  exact hcall.time_eq

/-! ### Node lines -/

lemma distinctNames_concat (hnode : nodeLine? line = some node) :
    distinctNames (lines ++ [line]) = if node.name ∈ distinctNames lines then distinctNames lines
      else distinctNames lines ++ [node.name] := by
  rw [distinctNames, nodeLines_concat, hnode, Option.toList_some, List.map_append,
    List.map_singleton, eraseDups_concat, ← distinctNames]

lemma mem_distinctNames_iff {name : String} :
    name ∈ distinctNames lines ↔ ∃ node ∈ nodeLines lines, node.name = name := by
  rw [distinctNames, List.mem_eraseDups, List.mem_map]

lemma firstTimes?_eq_none {name : String} (hname : name ∉ distinctNames lines) :
    firstTimes? lines name = none := by
  rw [firstTimes?, Option.map_eq_none_iff, List.find?_eq_none]
  intro node hnode
  simpa using fun hsame => hname (mem_distinctNames_iff.2 ⟨node, hnode, hsame⟩)

/-- A later node line does not change the times of a name. -/
lemma firstTimes?_concat (hnode : nodeLine? line = some node) (name : String) :
    firstTimes? (lines ++ [line]) name
      = (firstTimes? lines name).or (if node.name = name then some node.times else none) := by
  rw [firstTimes?, nodeLines_concat, hnode, Option.toList_some, List.find?_append, Option.map_or,
    ← firstTimes?]
  by_cases hname : node.name = name <;> simp [hname]

/-! ### Edge lines -/

lemma distinctEnds_concat (hcall : callLine? lines line = some call) :
    distinctEnds (lines ++ [line]) = if call.ends ∈ distinctEnds lines then distinctEnds lines
      else distinctEnds lines ++ [call.ends] := by
  rw [distinctEnds, callLines_concat, hcall, Option.toList_some, List.map_append,
    List.map_singleton, eraseDups_concat, ← distinctEnds]

/-- A later edge line takes the place of an earlier one. -/
lemma lastTime?_concat (hcall : callLine? lines line = some call) (ends : String × String) :
    lastTime? (lines ++ [line]) ends
      = if call.ends = ends then some call.time else lastTime? lines ends := by
  rw [lastTime?, callLines_concat, hcall, Option.toList_some, List.reverse_append,
    List.reverse_singleton, List.singleton_append, List.find?_cons]
  by_cases hends : call.ends = ends
  · simp [hends]
  · simp [hends, lastTime?]

/-! ## Line by line -/

namespace Reading

variable {reading next : Reading} {identifier caller callee : List Char}

/-- **What a reading is after some lines**: its graph and its registry are what the lines mean, and
its identifiers are those of the node lines. -/
structure After (known : Registry) (lines : List (List Char)) (reading : Reading) : Prop extends
    Means known lines reading.graph reading.registry where
  accepted : Accepted lines
  identifiers : List.Forall₂ (fun (node : NodeLine) entry => entry.1 = node.identifier ∧
    reading.registry.name entry.2 = .ok node.name) (nodeLines lines).reverse reading.identifiers

lemma after_start (known : Registry) : (start known).After known [] where
  functions := .nil
  calls := .nil
  names := (List.append_nil _).symm
  accepted := ⟨fun _ hline => absurd hline List.not_mem_nil, fun _ _ _ hsplit => by simp at hsplit⟩
  identifiers := .nil

/-- The first node of an identifier is the one that it is looked up for. -/
lemma exists_find?_of_lookup {nodes : List NodeLine} {entries : List (List Char × FunctionId)}
    (h : List.Forall₂ (fun node entry => entry.1 = node.identifier ∧
      registry.name entry.2 = .ok node.name) nodes entries)
    {id : FunctionId} (hlookup : entries.lookup identifier = some id) :
    ∃ node, nodes.find? (·.identifier = identifier) = some node ∧
      registry.name id = .ok node.name := by
  induction h with
  | nil => simp at hlookup
  | @cons node entry nodes entries hentry _ ih =>
    obtain ⟨hsame, hname⟩ := hentry
    by_cases hthis : node.identifier = identifier
    · have hhere : (entry :: entries).lookup identifier = some entry.2 := by
        rw [← hthis, ← hsame]
        exact List.lookup_cons_self
      obtain rfl := Option.some.inj (hhere.symm.trans hlookup)
      exact ⟨node, by rw [List.find?_cons_of_pos (by simpa using hthis)], hname⟩
    · have hlater : (entry :: entries).lookup identifier = entries.lookup identifier := by
        have hne : (identifier == entry.1) = false := by
          simpa [hsame] using fun hsame => hthis hsame.symm
        rw [List.lookup_cons, hne]
      obtain ⟨other, hother, hname⟩ := ih (hlater.symm.trans hlookup)
      exact ⟨other, by rw [List.find?_cons_of_neg (by simpa using hthis), hother], hname⟩

/-- An identifier that is known is resolved to the function of the latest node line. -/
lemma After.exists_nameBelow (h : reading.After known lines) {id : FunctionId}
    (hlookup : reading.identifiers.lookup identifier = some id) :
    ∃ name, nameBelow lines identifier = some name ∧ reading.registry.name id = .ok name := by
  obtain ⟨node, hnode, hname⟩ := exists_find?_of_lookup h.identifiers hlookup
  exact ⟨node.name, by rw [nameBelow, hnode]; rfl, hname⟩

/-! ### Nodes -/

lemma After.map_name (h : reading.After known lines) :
    reading.graph.functions.map (·.name) = distinctNames lines := by
  have hnames : List.Forall₂ Eq (distinctNames lines) (reading.graph.functions.map (·.name)) :=
    List.forall₂_map_right_iff.2 (h.functions.imp fun _ _ hf => hf.name_eq.symm)
  rw [List.forall₂_eq_eq_eq] at hnames
  exact hnames.symm

/-- A name that is registered is one that was known or that a node line has. -/
lemma After.mem_registry_iff (h : reading.After known lines) {name : String} :
    name ∈ reading.registry.names ↔ name ∈ known.names ∨ name ∈ distinctNames lines := by
  rw [h.names, List.mem_append, List.mem_filter]
  by_cases hknown : name ∈ known.names <;> simp [hknown]

/-- A name that is registered is the next one, unless it is known or some line has it. -/
lemma After.names_register (h : reading.After known lines) {name : String}
    (htrimmed : Text.trimmed name = name) : (reading.registry.register name).1.names
      = known.names ++ (if name ∈ distinctNames lines then distinctNames lines
          else distinctNames lines ++ [name]).filter (· ∉ known.names) := by
  rw [Registry.names_register, htrimmed]
  by_cases hname : name ∈ distinctNames lines
  · rw [if_pos hname, if_pos (h.mem_registry_iff.2 (Or.inr hname)), h.names]
  · rw [if_neg hname, List.filter_append]
    by_cases hknown : name ∈ known.names
    · rw [if_pos (h.mem_registry_iff.2 (Or.inl hknown)), h.names]
      simp [hknown]
    · rw [if_neg fun hmem => (h.mem_registry_iff.1 hmem).elim hknown hname, h.names]
      simp [hknown]

/-- The function of a node line is the next one, unless some line has its name. -/
lemma After.functions_addFunction (h : reading.After known lines) (hsound : reading.Sound) {name : String}
    {times : Times} (hnode : nodeLine? line = some ⟨identifier, name, times⟩)
    (htrimmed : Text.trimmed name = name) :
    List.Forall₂ (FunctionMeans (lines ++ [line]) (reading.registry.register name).1)
      (distinctNames (lines ++ [line]))
      (reading.graph.addFunction ⟨(reading.registry.register name).2, Text.trimmed name,
        times.selfTime, times.totalTime⟩).functions := by
  have hextends := Registry.extends_register reading.registry name
  have hid := Registry.name_register reading.registry name
  rw [htrimmed] at hid
  have hpresent : (reading.registry.register name).2 ∈ reading.graph.ids ↔
      name ∈ distinctNames lines := by
    rw [hsound.mem_ids_register_iff, htrimmed, ← h.map_name, CallGraph.labels, List.map_map]
    rfl
  have hold : List.Forall₂ (FunctionMeans (lines ++ [line]) (reading.registry.register name).1)
      (distinctNames lines) reading.graph.functions := by
    refine h.functions.imp fun other f hf => ⟨hf.name_eq, hextends.keeps_name hf.id_eq, ?_⟩
    rw [firstTimes?_concat hnode, hf.times_eq, Option.some_or]
  rw [distinctNames_concat hnode, CallGraph.addFunction]
  by_cases hname : name ∈ distinctNames lines
  · rw [if_pos hname, dif_pos (hpresent.2 hname)]
    exact hold
  · rw [if_neg hname, dif_neg (mt hpresent.1 hname)]
    refine List.rel_append hold (.cons ⟨htrimmed, hid, ?_⟩ .nil)
    rw [firstTimes?_concat hnode, firstTimes?_eq_none hname, if_pos rfl]
    rfl

/-- **A node line** tells of a function that is new, or only of an identifier. -/
lemma After.addNode (h : reading.After known lines) (hsound : reading.Sound) {name : String}
    {times : Times} (hline : Statement.ofLine line = .ok (.node identifier name times)) :
    (reading.addNode identifier name times).After known (lines ++ [line]) := by
  obtain ⟨hlook, hedge, htrimmed⟩ := look_of_ofLine hline
  replace htrimmed := htrimmed _ _ _ rfl
  have hnode : nodeLine? line = some ⟨identifier, name, times⟩ := by rw [nodeLine?, hline]
  have hcall : ∀ above, callLine? above line = none := fun above => by rw [callLine?, hline]
  have hextends := extends_addNode reading identifier name times
  have hid := Registry.name_register reading.registry name
  rw [htrimmed] at hid
  refine ⟨⟨?_, ?_, ?_⟩, ?_, ?_⟩
  · show List.Forall₂ _ _ (reading.graph.addFunction ⟨(reading.registry.register name).2,
      Text.trimmed name, times.selfTime, times.totalTime⟩).functions
    exact h.functions_addFunction hsound hnode htrimmed
  · rw [Reading.addNode, CallGraph.calls_addFunction]
    exact forall₂_callMeans (callLines_concat_of_none (hcall lines)) hextends h.calls
  · rw [distinctNames_concat hnode]
    show (reading.registry.register name).1.names = _
    exact h.names_register htrimmed
  · exact h.accepted.concat (iff_of_true (hlook.2 ⟨_, _, _, rfl⟩) ⟨_, hnode⟩)
      (iff_of_false (mt hedge.1 (by simp)) (by simp [hcall]))
  · rw [nodeLines_concat, hnode, Option.toList_some, List.reverse_append, List.reverse_singleton,
      List.singleton_append]
    exact .cons ⟨rfl, hid⟩ (h.identifiers.imp fun node entry hentry =>
      ⟨hentry.1, hextends.keeps_name hentry.2⟩)

/-! ### Edges -/

/-- **An edge line** tells of a call, which takes the place of an earlier one. -/
lemma After.addEdge (h : reading.After known lines) {time : Except LineFault Duration}
    (hline : Statement.ofLine line = .ok (.edge caller callee time))
    (hok : reading.addEdge caller callee time = .ok next) : next.After known (lines ++ [line]) := by
  obtain ⟨hlook, hedge, -⟩ := look_of_ofLine hline
  obtain ⟨a, b, duration, graph, hcaller, hcallee, rfl, hset, rfl⟩ := addEdge_eq_ok_iff.1 hok
  obtain ⟨first, hfirst, ha⟩ := h.exists_nameBelow hcaller
  obtain ⟨second, hsecond, hb⟩ := h.exists_nameBelow hcallee
  obtain ⟨hfunctions, hcalls⟩ := CallGraph.eq_of_setCall hset
  have hnode : nodeLine? line = none := by rw [nodeLine?, hline]
  have hcall : callLine? lines line = some ⟨first, second, duration⟩ := by
    rw [callLine?, hline]
    show (nameBelow lines caller).bind _ = _
    rw [hfirst, hsecond]
    rfl
  have hnodes : nodeLines (lines ++ [line]) = nodeLines lines := nodeLines_concat_of_none hnode
  have hends : ∀ ends other, CallMeans lines reading.registry ends other →
      (other.ends = (a, b) ↔ ends = (first, second)) := by
    rintro ⟨name, name'⟩ other hother
    constructor
    · intro hsame
      obtain ⟨rfl, rfl⟩ := Prod.mk.inj hsame
      exact Prod.ext (Except.ok.inj (hother.caller_eq.symm.trans ha))
        (Except.ok.inj (hother.callee_eq.symm.trans hb))
    · rintro ⟨⟩
      exact Prod.ext (Registry.id_unique hother.caller_eq ha)
        (Registry.id_unique hother.callee_eq hb)
  refine ⟨⟨?_, ?_, ?_⟩, ?_, ?_⟩
  · show List.Forall₂ _ _ graph.functions
    rw [hfunctions]
    exact forall₂_functionMeans hnodes (.refl _) h.functions
  · show List.Forall₂ _ _ graph.calls
    rw [hcalls, distinctEnds_concat hcall]
    refine CallGraph.forall₂_setCallIn h.calls (nodup_eraseDups _) hends ⟨ha, hb, ?_⟩
      fun ends other hne hother => ⟨hother.caller_eq, hother.callee_eq, ?_⟩
    · rw [lastTime?_concat hcall, if_pos rfl]
    · rw [lastTime?_concat hcall, if_neg (Ne.symm hne), hother.time_eq]
  · rw [distinctNames, hnodes, ← distinctNames]
    exact h.names
  · exact h.accepted.concat (iff_of_false (mt hlook.1 (by simp)) (by simp [hnode]))
      (iff_of_true (hedge.2 ⟨_, _, _, rfl⟩) ⟨_, hcall⟩)
  · rw [hnodes]
    exact h.identifiers

/-! ### Lines -/

/-- A line that tells of neither a node nor an edge leaves everything as it was. -/
lemma After.skip (h : reading.After known lines) {statement : Statement}
    (hline : Statement.ofLine line = .ok statement)
    (hstatement : statement = .nothing ∨ statement = .untipped) (untipped : List Nat) :
    After known (lines ++ [line]) { reading with untipped } := by
  obtain ⟨hlook, hedge, -⟩ := look_of_ofLine hline
  have hnode : nodeLine? line = none := by
    rw [nodeLine?, hline]
    rcases hstatement with rfl | rfl <;> rfl
  have hcall : callLine? lines line = none := by
    rw [callLine?, hline]
    rcases hstatement with rfl | rfl <;> rfl
  have hnodes : nodeLines (lines ++ [line]) = nodeLines lines := nodeLines_concat_of_none hnode
  refine ⟨⟨forall₂_functionMeans hnodes (.refl _) h.functions,
    forall₂_callMeans (callLines_concat_of_none hcall) (.refl _) h.calls, ?_⟩,
    h.accepted.concat ?_ ?_, ?_⟩
  · rw [distinctNames, hnodes, ← distinctNames]
    exact h.names
  · refine iff_of_false (mt hlook.1 ?_) (by simp [hnode])
    rcases hstatement with rfl | rfl <;> simp
  · refine iff_of_false (mt hedge.1 ?_) (by simp [hcall])
    rcases hstatement with rfl | rfl <;> simp
  · rw [hnodes]
    exact h.identifiers

/-- **One line more** is read as it is meant. -/
theorem After.readLine (h : reading.After known lines) (hsound : reading.Sound) {number : Nat}
    (hok : reading.readLine number line = .ok next) : next.After known (lines ++ [line]) := by
  obtain ⟨statement, hline, happly⟩ := readLine_eq_ok_iff.1 hok
  cases statement with
  | nothing =>
    obtain rfl := Except.ok.inj happly
    exact h.skip hline (Or.inl rfl) reading.untipped
  | untipped =>
    obtain rfl := Except.ok.inj happly
    exact h.skip hline (Or.inr rfl) _
  | node identifier name times =>
    obtain rfl := Except.ok.inj happly
    exact h.addNode hsound hline
  | edge caller callee time => exact h.addEdge hline happly

end Reading

/-! ## Documents -/

namespace Document

variable {path : String} {number : Nat} {reading : Reading} {known : Registry} {g : CallGraph}

/-- **What is read is what is meant**, from some line on. -/
lemma means_of_readFrom {rest : Lines} (hsound : reading.Sound) (h : reading.After known above)
    (hok : (readFrom path number reading rest).result = .ok g) :
    ∃ texts, rest = texts.map some ∧ Accepted (above ++ texts) ∧
      Means known (above ++ texts) g (readFrom path number reading rest).registry := by
  fun_induction readFrom path number reading rest generalizing above with
  | case1 number reading =>
    obtain rfl := Except.ok.inj hok
    refine ⟨[], rfl, ?_⟩
    rw [List.append_nil]
    exact ⟨h.accepted, h.toMeans⟩
  | case2 => cases hok
  | case3 => cases hok
  | case4 number reading line rest next hline ih =>
    obtain ⟨statement, -, happly⟩ := Reading.readLine_eq_ok_iff.1 hline
    obtain ⟨texts, rfl, hmeans⟩ := ih (hsound.apply happly).1 (h.readLine hsound hline) hok
    rw [List.append_assoc, List.singleton_append] at hmeans
    exact ⟨line :: texts, rfl, hmeans⟩

/-- **A document that is accepted means what its lines tell.**  Whatever names are known before,

* every line that looks like a node or like an edge tells one, and no other line does;
* the functions are the distinct names of the node lines in the order in which they come first,
  each with the times of its first line and the id of its name;
* the calls are the distinct ends of the edge lines in the order in which they come first, each
  with the time of its last line, where an identifier stands for the function of the latest node
  line above;
* the registry is the old one and the new names behind it, in the order in which they come first.
  -/
theorem read_means (path : String) (known : Registry) (lines : Lines) (g : CallGraph)
    (hok : (read path known lines).result = .ok g) :
    ∃ texts, lines = texts.map some ∧ Accepted texts ∧
      Means known texts g (read path known lines).registry :=
  means_of_readFrom (Reading.sound_start known) (Reading.after_start known) hok

/-- A document that takes an identifier anew, for a function that it has told of already, and has
two edges between the same functions. -/
def retold : Lines :=
  ["N1 [label=\"1s %\" tooltip=\"a\"]", "N2 [label=\"2s %\" tooltip=\"b\"]",
    "N1 [label=\"3s %\" tooltip=\"b\"]", "N2 -> N1 [label=\"4s\"]",
    "N1 -> N2 [label=\"5s\"]"].map fun line => some line.toList

theorem read_means_retold :
    let known := (Registry.empty.registerAll ["x", "b"]).1
    let second : ℕ := 1000000000
    ∃ g, (read inMemory known retold).result = .ok g ∧
      g.functions = [⟨2, "a", ⟨second⟩, ⟨second⟩⟩, ⟨1, "b", ⟨2 * second⟩, ⟨2 * second⟩⟩] ∧
      g.calls = [⟨1, 1, ⟨5 * second⟩⟩] ∧
      ∃ texts, retold = texts.map some ∧ Accepted texts ∧
        Means known texts g (read inMemory known retold).registry := by
  intro known second
  have hread : (match (read inMemory known retold).result with
      | .ok g => (g.functions, g.calls)
      | .error _ => ([], []))
        = ([⟨2, "a", ⟨second⟩, ⟨second⟩⟩, ⟨1, "b", ⟨2 * second⟩, ⟨2 * second⟩⟩],
          [⟨1, 1, ⟨5 * second⟩⟩]) := by
    decide +kernel
  split at hread
  · next g hok =>
    obtain ⟨hfunctions, hcalls⟩ := Prod.mk.inj hread
    exact ⟨g, hok, hfunctions, hcalls, read_means inMemory known retold g hok⟩
  · cases hread

end Document

end BenchCover.Dot
