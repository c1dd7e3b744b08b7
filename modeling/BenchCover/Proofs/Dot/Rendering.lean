import BenchCover.Proofs.Dot.Reading
import BenchCover.Proofs.Dot.RenderedLine
import Mathlib.Data.List.Induction

/-!
# Call graphs that were rendered

A call graph is rendered as a text with a node line for each function and then an edge line for each
call.  Lines that do not start with `N` may stand anywhere between them, and a line may end in a
newline or in a carriage return and a newline: `IsRendering`.

**Reading.**  `Reading.Reads` says what lines make of a reading, wherever in a document they stand.
Lines that do not start with `N` do not matter for it (`Reading.Reads.of_filter`).

**Drawing.**  `Reading.Draws` is the invariant: the functions so far are in the graph with their
places as ids, and their identifiers stand for them.  A node line of a new name keeps it, and so
does an edge line between new ends.

Together they say that every call graph survives rendering: `Document.read_rendering`.
-/

namespace BenchCover.Dot

variable {i : ℕ} {text : List Char}

/-! ## The rendered shape -/

/-- A line of a text with the end that it has. -/
structure EndedLine where
  text : String
  carriageReturn : Bool
  newline_notMem : '\n' ∉ text.toList

namespace EndedLine

def whole (line : EndedLine) : String :=
  line.text ++ if line.carriageReturn then "\r\n" else "\n"

def join (lines : List EndedLine) : String :=
  String.join (lines.map whole)

end EndedLine

/-- **Lines that render a call graph**: those that start with `N` are the node lines of its
functions and then the edge lines of its calls. -/
def IsRendering (functions : List RenderedFunction) (calls : List (RenderedCall functions.length))
    (lines : List EndedLine) : Prop :=
  (lines.map (·.text)).filter (·.toList.head? = some 'N')
    = functions.mapIdx RenderedFunction.line ++ calls.map RenderedCall.line

instance (functions : List RenderedFunction) (calls : List (RenderedCall functions.length))
    (lines : List EndedLine) : Decidable (IsRendering functions calls lines) :=
  inferInstanceAs (Decidable (_ = _))

/-- What the lines of a call graph look like. -/
lemma look_of_mem_lines {functions : List RenderedFunction}
    {calls : List (RenderedCall functions.length)} {line : String}
    (hline : line ∈ functions.mapIdx RenderedFunction.line ++ calls.map RenderedCall.line) :
    '\n' ∉ line.toList ∧ line.toList.head? = some 'N' ∧ line.toList.getLast? = some ']' := by
  rcases List.mem_append.1 hline with hfunction | hcall
  · obtain ⟨i, hi, rfl⟩ := List.mem_mapIdx.1 hfunction
    exact ⟨RenderedFunction.newline_notMem_line, RenderedFunction.head?_line,
      RenderedFunction.getLast?_line⟩
  · obtain ⟨call, -, rfl⟩ := List.mem_map.1 hcall
    exact ⟨RenderedCall.newline_notMem_line, RenderedCall.head?_line, RenderedCall.getLast?_line⟩

/-- **Every call graph has a rendering**: its lines by themselves. -/
theorem exists_isRendering (functions : List RenderedFunction)
    (calls : List (RenderedCall functions.length)) :
    ∃ lines, IsRendering functions calls lines := by
  have hlook := @look_of_mem_lines functions calls
  generalize hall : functions.mapIdx RenderedFunction.line ++ calls.map RenderedCall.line = all
    at hlook
  refine ⟨all.attach.map fun line => ⟨line.1, false, (hlook line.2).1⟩, ?_⟩
  have htexts : all.attach.map (EndedLine.text ∘ fun line => ⟨line.1, false, (hlook line.2).1⟩)
      = all := List.attach_map_subtype_val all
  rw [IsRendering, hall, List.map_map, htexts, List.filter_eq_self]
  exact fun line hline => decide_eq_true (hlook hline).2.1

/-! ## Reading line by line -/

namespace Reading

variable {reading next last : Reading} {line : List Char} {lines : List (List Char)}
  {statement : Statement}

/-- **What lines make of a reading**, wherever in a document they stand: a line that does not start
with `N` is passed over, and any other line says something that is applied. -/
inductive Reads : Reading → List (List Char) → Reading → Prop
  | nil (reading : Reading) : Reads reading [] reading
  | skip {reading last : Reading} {line : List Char} {lines : List (List Char)}
      (hhead : line.head? ≠ some 'N') (hlines : Reads reading lines last) :
      Reads reading (line :: lines) last
  | step {reading next last : Reading} {line : List Char} {lines : List (List Char)}
      {statement : Statement} (hline : Statement.ofLine line = .ok statement)
      (happly : ∀ number, reading.apply number statement = .ok next)
      (hlines : Reads next lines last) : Reads reading (line :: lines) last

lemma Reads.concat (h : Reads reading lines next) (hline : Statement.ofLine line = .ok statement)
    (happly : ∀ number, next.apply number statement = .ok last) :
    Reads reading (lines ++ [line]) last := by
  induction h with
  | nil => exact .step hline happly (.nil last)
  | skip hhead _ ih => exact .skip hhead (ih happly)
  | step hfirst hnext _ ih => exact .step hfirst hnext (ih happly)

/-- **Only the lines that start with `N` matter.** -/
lemma Reads.of_filter (h : Reads reading (lines.filter (·.head? = some 'N')) last) :
    Reads reading lines last := by
  induction lines generalizing reading with
  | nil => exact h
  | cons line rest ih =>
    by_cases hhead : line.head? = some 'N'
    · rw [List.filter_cons_of_pos (by simpa using hhead)] at h
      cases h with
      | skip hother => exact absurd hhead hother
      | step hline happly hrest => exact .step hline happly (ih hrest)
    · rw [List.filter_cons_of_neg (by simpa using hhead)] at h
      exact .skip hhead (ih h)

/-- The lines of a document are read into the last reading. -/
lemma Reads.readFrom_eq (h : Reads reading lines last) (path : String) (number : ℕ) :
    Document.readFrom path number reading (lines.map some)
      = Document.finish last (.ok last.graph) := by
  induction h generalizing number with
  | nil => rfl
  | @skip reading last line lines hhead _ ih =>
    have hline : reading.readLine number line = .ok reading :=
      readLine_eq_ok_iff.2 ⟨.nothing, Statement.ofLine_of_head hhead, rfl⟩
    rw [List.map_cons, Document.readFrom, hline]
    exact ih (number + 1)
  | @step reading next last line lines statement hline happly _ ih =>
    have hread : reading.readLine number line = .ok next :=
      readLine_eq_ok_iff.2 ⟨statement, hline, happly number⟩
    rw [List.map_cons, Document.readFrom, hread]
    exact ih (number + 1)

end Reading

/-! ## Drawing the graph -/

namespace Reading

variable {functions : List RenderedFunction} {calls : List Call} {reading : Reading}

/-- **A reading that has drawn some functions and calls**: the place of a function is its id, and
what its identifier stands for. -/
structure Draws (functions : List RenderedFunction) (calls : List Call) (reading : Reading) :
    Prop where
  functions_eq : reading.graph.functions = functions.mapIdx RenderedFunction.toFunction
  calls_eq : reading.graph.calls = calls
  names_eq : reading.registry.names = functions.map (·.name)
  identified : ∀ i < functions.length,
    reading.identifiers.lookup (identifier i) = some (i : FunctionId)

lemma draws_start : (start .empty).Draws [] [] where
  functions_eq := rfl
  calls_eq := rfl
  names_eq := rfl
  identified := fun _ hi => absurd hi (Nat.not_lt_zero _)

lemma Draws.mem_ids_iff (h : reading.Draws functions calls) :
    (i : FunctionId) ∈ reading.graph.ids ↔ i < functions.length := by
  rw [CallGraph.ids, h.functions_eq]
  simp [List.mem_mapIdx, RenderedFunction.toFunction]

/-- **A function of a new name** is drawn, and gets the next place. -/
lemma Draws.addNode (h : reading.Draws functions calls) {f : RenderedFunction}
    (hnew : f.name ∉ functions.map (·.name)) :
    (reading.addNode (identifier functions.length) f.name f.times).Draws (functions ++ [f])
      calls := by
  have htrimmed : Text.trimmed f.name = f.name := by
    rw [Text.trimmed, Text.trim_of_forall fun c hc => (f.name_plain c hc).1, String.ofList_toList]
  have hunknown : Text.trimmed f.name ∉ reading.registry.names := by
    rwa [htrimmed, h.names_eq]
  have hid : (reading.registry.register f.name).2 = (functions.length : FunctionId) := by
    rw [Registry.register, dif_neg hunknown]
    simp [h.names_eq]
  have hgraph : (reading.addNode (identifier functions.length) f.name f.times).graph
      = reading.graph.addFunction ⟨(reading.registry.register f.name).2, Text.trimmed f.name,
        f.times.selfTime, f.times.totalTime⟩ := rfl
  rw [hid, htrimmed] at hgraph
  have hfree : (functions.length : FunctionId) ∉ reading.graph.ids :=
    mt h.mem_ids_iff.1 (Nat.lt_irrefl _)
  refine ⟨?_, ?_, ?_, fun i hi => ?_⟩
  · rw [hgraph, CallGraph.addFunction, dif_neg hfree, List.mapIdx_concat, ← h.functions_eq]
    rfl
  · rw [hgraph, CallGraph.calls_addFunction, h.calls_eq]
  · show (reading.registry.register f.name).1.names = _
    rw [Registry.names_register, if_neg hunknown, htrimmed, h.names_eq, List.map_append,
      List.map_singleton]
  · show ((identifier functions.length, (reading.registry.register f.name).2) ::
      reading.identifiers).lookup (identifier i) = _
    rw [List.length_append, List.length_singleton] at hi
    rcases Nat.lt_succ_iff_lt_or_eq.1 hi with hi | rfl
    · have hother : (identifier i == identifier functions.length) = false :=
        beq_eq_false_iff_ne.2 (mt identifier_inj hi.ne)
      rw [List.lookup_cons, hother]
      exact h.identified i hi
    · rw [List.lookup_cons_self, hid]

/-- **A call between new ends** is drawn. -/
lemma Draws.addEdge (h : reading.Draws functions calls) {call : RenderedCall functions.length}
    (hnew : call.toCall.ends ∉ calls.map (·.ends)) :
    ∃ next, reading.addEdge (identifier call.caller) (identifier call.callee) (.ok call.time)
      = .ok next ∧ next.Draws functions (calls ++ [call.toCall]) := by
  have hcaller : call.toCall.caller ∈ reading.graph.ids := h.mem_ids_iff.2 call.caller.isLt
  have hcallee : call.toCall.callee ∈ reading.graph.ids := h.mem_ids_iff.2 call.callee.isLt
  obtain ⟨graph, hset, -⟩ := CallGraph.exists_setCall hcaller hcallee
  obtain ⟨hfunctions, hcalls⟩ := CallGraph.eq_of_setCall hset
  refine ⟨{ reading with graph }, addEdge_eq_ok_iff.2 ⟨_, _, _, graph,
    h.identified _ call.caller.isLt, h.identified _ call.callee.isLt, rfl, hset, rfl⟩, ?_⟩
  refine ⟨hfunctions.trans h.functions_eq, ?_, h.names_eq, h.identified⟩
  show graph.calls = _
  rw [hcalls, h.calls_eq, CallGraph.setCallIn_of_notMem hnew]

/-- **The node lines** draw the functions. -/
lemma exists_reads_functions (hnames : (functions.map (·.name)).Nodup) :
    ∃ reading, Draws functions [] reading ∧ Reads (start .empty)
      ((functions.mapIdx RenderedFunction.line).map String.toList) reading := by
  induction functions using List.reverseRecOn with
  | nil => exact ⟨start .empty, draws_start, .nil _⟩
  | append_singleton functions f ih =>
    rw [List.map_append, List.map_singleton, List.nodup_append] at hnames
    obtain ⟨hearlier, -, hnew⟩ := hnames
    obtain ⟨reading, hdraws, hreads⟩ := ih hearlier
    have hnew : f.name ∉ functions.map (·.name) := fun hmem =>
      hnew _ hmem _ (List.mem_singleton_self _) rfl
    refine ⟨_, hdraws.addNode hnew, ?_⟩
    rw [List.mapIdx_concat, List.map_append, List.map_singleton]
    exact hreads.concat RenderedFunction.ofLine_line fun _ => rfl

/-- **The edge lines** draw the calls. -/
lemma Draws.exists_reads_calls {lines : List (List Char)} (h : reading.Draws functions [])
    (hreads : Reads (start .empty) lines reading) {calls : List (RenderedCall functions.length)}
    (hends : (calls.map (·.toCall.ends)).Nodup) :
    ∃ last, Draws functions (calls.map (·.toCall)) last ∧
      Reads (start .empty) (lines ++ (calls.map RenderedCall.line).map String.toList) last := by
  induction calls using List.reverseRecOn with
  | nil =>
    refine ⟨reading, h, ?_⟩
    simpa using hreads
  | append_singleton calls call ih =>
    rw [List.map_append, List.map_singleton, List.nodup_append] at hends
    obtain ⟨hearlier, -, hnew⟩ := hends
    obtain ⟨middle, hdraws, hmiddle⟩ := ih hearlier
    have hnew : call.toCall.ends ∉ (calls.map (·.toCall)).map (·.ends) := by
      rw [List.map_map]
      exact fun hmem => hnew _ hmem _ (List.mem_singleton_self _) rfl
    obtain ⟨last, hlast, hdrawn⟩ := hdraws.addEdge hnew
    refine ⟨last, by rwa [List.map_append, List.map_singleton], ?_⟩
    rw [List.map_append, List.map_singleton, List.map_append, List.map_singleton,
      ← List.append_assoc]
    exact hmiddle.concat RenderedCall.ofLine_line fun _ => hlast

end Reading

/-! ## Lines with their ends -/

namespace EndedLine

/-- The line as it is read. -/
def chars (line : EndedLine) : List Char :=
  if line.carriageReturn then line.text.toList
  else Text.closeLine .characters line.text.toList.reverse

lemma closeLine_concat (text : List Char) :
    Text.closeLine .characters (text ++ ['\r']).reverse = text := by
  rw [List.reverse_concat, Text.closeLine]
  exact (if_pos rfl).trans (List.reverse_reverse text)

lemma closeLine_of_getLast? (hlast : text.getLast? ≠ some '\r') :
    Text.closeLine .characters text.reverse = text := by
  rcases List.eq_nil_or_concat text with rfl | ⟨init, last, rfl⟩
  · rfl
  · rw [List.concat_eq_append, List.getLast?_concat] at hlast
    have hreturn : last ≠ Text.LineEnd.characters.carriageReturn := fun hsame =>
      hlast (congrArg some hsame)
    rw [List.concat_eq_append, List.reverse_concat, Text.closeLine, if_neg hreturn,
      List.reverse_cons, List.reverse_reverse]

/-- **The lines of a text** that was put together from lines. -/
lemma lines_join (lines : List EndedLine) :
    Text.lines .characters (join lines).toList = lines.map chars := by
  induction lines with
  | nil => rfl
  | cons line rest ih =>
    rw [join, List.map_cons, String.join_cons, String.toList_append, ← join, List.map_cons, ← ih,
      whole, chars, String.toList_append]
    cases line.carriageReturn with
    | false =>
      rw [if_neg (by decide), if_neg (by decide), List.append_assoc]
      exact Text.lines_append_newline .characters _ line.newline_notMem
    | true =>
      have hnewline : '\n' ∉ line.text.toList ++ ['\r'] := by simpa using line.newline_notMem
      have hlines := Text.lines_append_newline .characters (join rest).toList hnewline
      rw [closeLine_concat] at hlines
      rw [if_pos rfl, if_pos rfl, ← hlines]
      simp [Text.LineEnd.characters]

lemma chars_eq (line : EndedLine) (hlast : line.text.toList.getLast? ≠ some '\r') :
    line.chars = line.text.toList := by
  rw [chars, closeLine_of_getLast? hlast, ite_self]

lemma head?_chars (line : EndedLine) :
    line.chars.head? = some 'N' ↔ line.text.toList.head? = some 'N' := by
  by_cases hlast : line.text.toList.getLast? = some '\r'
  · obtain ⟨init, hinit⟩ := List.getLast?_eq_some_iff.1 hlast
    rw [chars, hinit, closeLine_concat]
    split_ifs
    · rfl
    · cases init <;> simp
  · rw [chars_eq line hlast]

end EndedLine

/-! ## Documents -/

/-- **What is read of a rendering**: its node lines and its edge lines, and lines that do not
matter. -/
lemma IsRendering.filter_chars {functions : List RenderedFunction}
    {calls : List (RenderedCall functions.length)} {lines : List EndedLine}
    (h : IsRendering functions calls lines) :
    (lines.map EndedLine.chars).filter (·.head? = some 'N')
      = (functions.mapIdx RenderedFunction.line).map String.toList ++
        (calls.map RenderedCall.line).map String.toList := by
  rw [IsRendering, List.filter_map] at h
  rw [List.filter_map, ← List.map_append, ← h, List.map_map]
  have hsame : lines.filter ((fun chars => decide (chars.head? = some 'N')) ∘ EndedLine.chars)
      = lines.filter ((fun text => decide (text.toList.head? = some 'N')) ∘ EndedLine.text) :=
    List.filter_congr fun line _ => decide_eq_decide.2 line.head?_chars
  rw [hsame]
  refine List.map_congr_left fun line hline => line.chars_eq ?_
  rw [(look_of_mem_lines (h ▸ List.mem_map_of_mem hline)).2.2]
  decide

namespace Document

/-- **Every call graph survives rendering.**  The functions have different names and the calls
different ends; the text has a node line for each function, then an edge line for each call, and
between them any lines that do not start with `N`.  Read with an empty registry, it gives the
functions with their places as ids and the calls, in the order in which they were rendered, and the
registry of the names. -/
theorem read_rendering (path : String) (functions : List RenderedFunction)
    (calls : List (RenderedCall functions.length)) (lines : List EndedLine)
    (hnames : (functions.map (·.name)).Nodup)
    (hends : (calls.map fun call => (call.caller, call.callee)).Nodup)
    (hlines : IsRendering functions calls lines) :
    ∃ g, (read path .empty (ofText (EndedLine.join lines))).result = .ok g ∧
      g.functions = functions.mapIdx RenderedFunction.toFunction ∧
      g.calls = calls.map RenderedCall.toCall ∧
      (read path .empty (ofText (EndedLine.join lines))).registry.names
        = functions.map (·.name) := by
  have hcalls : (calls.map (·.toCall.ends)).Nodup := by
    have hinjective : Function.Injective fun ends : Fin functions.length × Fin functions.length =>
        ((ends.1.val : FunctionId), (ends.2.val : FunctionId)) := by
      rintro ⟨a, b⟩ ⟨a', b'⟩ hsame
      obtain ⟨hcaller, hcallee⟩ := Prod.mk.inj hsame
      exact Prod.ext (Fin.ext (Int.ofNat.inj hcaller)) (Fin.ext (Int.ofNat.inj hcallee))
    have hmap := hends.map hinjective
    rwa [List.map_map] at hmap
  obtain ⟨middle, hdraws, hfirst⟩ := Reading.exists_reads_functions hnames
  obtain ⟨last, hlast, hreads⟩ := hdraws.exists_reads_calls hfirst hcalls
  rw [← hlines.filter_chars] at hreads
  have hread : read path .empty (ofText (EndedLine.join lines)) = finish last (.ok last.graph) := by
    rw [read, ofText, EndedLine.lines_join]
    exact hreads.of_filter.readFrom_eq path 1
  exact ⟨last.graph, by rw [hread]; rfl, hlast.functions_eq, hlast.calls_eq,
    by rw [hread]; exact hlast.names_eq⟩

lemma parse_seconds : Duration.parse "0" = .ok ⟨0⟩ ∧ Duration.parse "1s" = .ok ⟨1000000000⟩ ∧
    Duration.parse "2s" = .ok ⟨2000000000⟩ ∧ Duration.parse "3s" = .ok ⟨3000000000⟩ := by
  decide +kernel

lemma plain_caller : "p.F" ≠ "" ∧
    (∀ c ∈ "p.F".toList, Text.isBlank c = false ∧ c ∉ ['"', '\\', '[']) ∧
      ∀ c ∈ "p\u2026[...]".toList, c ∉ ['"', '\\', '=', '\n'] := by
  simp [Text.isBlank, Text.blankRanges]

lemma plain_callee : "q=G" ≠ "" ∧
    (∀ c ∈ "q=G".toList, Text.isBlank c = false ∧ c ∉ ['"', '\\', '[']) ∧
      ∀ c ∈ "".toList, c ∉ ['"', '\\', '=', '\n'] := by
  simp [Text.isBlank, Text.blankRanges]

/-- A generic function, whose label has abbreviated type arguments, and a function that it calls. -/
def genericFunctions : List RenderedFunction :=
  [{ name := "p.F"
     caption := "p\u2026[...]"
     selfText := "0"
     totalText := "3s"
     times := ⟨⟨0⟩, ⟨3000000000⟩⟩
     name_ne_empty := plain_caller.1
     name_plain := plain_caller.2.1
     caption_plain := plain_caller.2.2
     selfText_parse := parse_seconds.1
     totalText_parse := parse_seconds.2.2.2 },
   { name := "q=G"
     caption := ""
     selfText := "1s"
     totalText := "2s"
     times := ⟨⟨1000000000⟩, ⟨2000000000⟩⟩
     name_ne_empty := plain_callee.1
     name_plain := plain_callee.2.1
     caption_plain := plain_callee.2.2
     selfText_parse := parse_seconds.2.1
     totalText_parse := parse_seconds.2.2.1 }]

def genericCalls : List (RenderedCall genericFunctions.length) :=
  [{ caller := ⟨0, Nat.two_pos⟩, callee := ⟨1, Nat.one_lt_two⟩, timeText := "2s",
     time := ⟨2000000000⟩, timeText_parse := parse_seconds.2.2.1 }]

/-- The lines of the two functions and of the call in a graph, with different ends. -/
def genericLines : List EndedLine :=
  [⟨"digraph \x7b", false, by simp⟩,
   ⟨"N0 [label=\"p\u2026[...]\\n0 (1%)\\nof 3s (2%)\" tooltip=\"p.F (3s)\"]", true, by simp⟩,
   ⟨"", true, by simp⟩,
   ⟨"N1 [label=\"\\n1s (1%)\\nof 2s (2%)\" tooltip=\"q=G (2s)\"]", false, by simp⟩,
   ⟨"N0 -> N1 [label=\" 2s\"]", true, by simp⟩,
   ⟨"\x7d", false, by simp⟩]

theorem read_rendering_generic :
    IsRendering genericFunctions genericCalls genericLines ∧
    ∃ g, (read inMemory .empty (ofText (EndedLine.join genericLines))).result = .ok g ∧
      g.functions = [⟨0, "p.F", ⟨0⟩, ⟨3000000000⟩⟩, ⟨1, "q=G", ⟨1000000000⟩, ⟨2000000000⟩⟩] ∧
      g.calls = [⟨0, 1, ⟨2000000000⟩⟩] ∧
      (read inMemory .empty (ofText (EndedLine.join genericLines))).registry.names
        = ["p.F", "q=G"] :=
  have hrendering : IsRendering genericFunctions genericCalls genericLines := by decide +kernel
  ⟨hrendering, read_rendering inMemory genericFunctions genericCalls genericLines
    (by decide +kernel) (by decide +kernel) hrendering⟩

end Document

end BenchCover.Dot
