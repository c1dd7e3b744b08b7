import BenchCover.Proofs.Dot.Leaf

/-!
# Nodes without a tooltip

A line may look like a node and have no attribute `tooltip`, as legends do.

**Lines.**  Such a line is passed over if the word `tooltip` does not stand in its attribute list at
all: `Statement.ofLine_of_lacksTooltip`.  If the word stands there as something else, in a label or
in a longer key, the line is taken for a node and refused.

**Documents.**  Lines that are passed over are idle, like those that do not start with `N`.  Of a
reading only its notes on untipped nodes depend on them (`Reading.apply_withNotes`), so documents
with more idle lines give the same graph and the same registry, or are refused for the same cause
(`Document.readFrom_padded`).  All of it is put together in `Document.read_untipped`.
-/

namespace BenchCover.Dot

variable {line list : List Char}

/-! ## Lines -/

/-- **A line that looks like a node and lacks a tooltip**: it starts with `N`, there is no arrow in
front of its first bracket, and the list behind that does not have the attribute. -/
def LacksTooltip (line : List Char) : Prop :=
  line.head? = some 'N' ∧ ∃ head list,
    Text.cutFirst '[' (Statement.withoutTypeArguments line) = some (head, list) ∧
      ¬ Statement.arrow <:+: head ∧ attribute? "tooltip" (Text.trim list) = none

/-- **A node without a tooltip is passed over, or refused** if the word stands in its attributes. -/
lemma Statement.ofLine_of_lacksTooltip (hline : LacksTooltip line) :
    (¬ IsNodeLine line → ofLine line = .ok .untipped) ∧
      (IsNodeLine line → ofLine line = .error (.noAttribute "tooltip")) := by
  obtain ⟨hhead, head, list, hcut, harrow, htooltip⟩ := hline
  have hnode := (isNodeLine_iff_of_cut hhead hcut).1
  rw [ofLine_of_cut hhead hcut, if_neg (mt contains_arrow_trim_iff.1 harrow), hnode,
    ← contains_tooltip_trim_iff]
  constructor
  · intro hword
    have hword : Text.contains "tooltip".toList (Text.trim list) = false := by
      simpa [harrow] using hword
    rw [hword]
    rfl
  · rintro ⟨-, hword⟩
    rw [hword]
    exact ofNode_eq_error_iff.2 (.noTooltip htooltip)

/-- **Idle lines** say nothing: they do not start with `N`, or they look like nodes without the word
`tooltip` in their attributes. -/
def IsIdle (line : List Char) : Prop :=
  line.head? ≠ some 'N' ∨ LacksTooltip line ∧ ¬ IsNodeLine line

/-! ## Readings -/

namespace Reading

variable {reading : Reading} {number : ℕ}

/-- The same reading with other notes on nodes that were passed over. -/
def withNotes (notes : List ℕ) (reading : Reading) : Reading :=
  { reading with untipped := notes }

lemma addEdge_withNotes (reading : Reading) (notes : List ℕ) (caller callee : List Char)
    (time : Except LineFault Duration) : (reading.withNotes notes).addEdge caller callee time
      = (reading.addEdge caller callee time).map (withNotes notes) := by
  show ((reading.resolve .caller caller).bind fun a =>
      (reading.resolve .callee callee).bind fun b => time.bind fun time =>
        ((reading.graph.setCall ⟨a, b, time⟩).mapError .missingEnd).bind fun graph =>
          .ok (withNotes notes { reading with graph })) = _
  rw [addEdge]
  cases reading.resolve .caller caller with
  | error cause => rfl
  | ok a =>
    cases reading.resolve .callee callee with
    | error cause => rfl
    | ok b =>
      cases time with
      | error cause => rfl
      | ok time =>
        show (((reading.graph.setCall ⟨a, b, time⟩).mapError LineFault.missingEnd).bind
            fun graph => .ok (withNotes notes { reading with graph }))
          = (((reading.graph.setCall ⟨a, b, time⟩).mapError LineFault.missingEnd).bind
            fun graph => .ok { reading with graph }).map (withNotes notes)
        cases (reading.graph.setCall ⟨a, b, time⟩).mapError LineFault.missingEnd <;> rfl

/-- **The notes do not matter** for what a statement adds, and neither does the number of its
line. -/
lemma apply_withNotes (reading : Reading) (notes : List ℕ) (number number' : ℕ)
    (statement : Statement) :
    ∃ notes', (reading.withNotes notes).apply number' statement
      = (reading.apply number statement).map (withNotes notes') := by
  cases statement with
  | nothing => exact ⟨notes, rfl⟩
  | untipped => exact ⟨notes ++ [number'], rfl⟩
  | node identifier function times => exact ⟨notes, rfl⟩
  | edge caller callee time => exact ⟨notes, reading.addEdge_withNotes notes caller callee time⟩

lemma readLine_withNotes (reading : Reading) (notes : List ℕ) (number number' : ℕ)
    (line : List Char) :
    ∃ notes', (reading.withNotes notes).readLine number' line
      = (reading.readLine number line).map (withNotes notes') := by
  rw [readLine, readLine]
  cases Statement.ofLine line with
  | error cause => exact ⟨notes, rfl⟩
  | ok statement => exact reading.apply_withNotes notes number number' statement

/-- **An idle line** leaves at most a note. -/
lemma readLine_of_isIdle (hline : IsIdle line) (reading : Reading) (number : ℕ) :
    ∃ notes, reading.readLine number line = .ok (reading.withNotes notes) := by
  rcases hline with hhead | ⟨hline, hword⟩
  · exact ⟨reading.untipped, readLine_eq_ok_iff.2 ⟨_, Statement.ofLine_of_head hhead, rfl⟩⟩
  · exact ⟨reading.untipped ++ [number], readLine_eq_ok_iff.2
      ⟨_, (Statement.ofLine_of_lacksTooltip hline).1 hword, rfl⟩⟩

end Reading

/-! ## Documents -/

/-- What a document is refused for, wherever in it that is. -/
def DocumentFault.cause : DocumentFault → FileFault ⊕ LineFault
  | .file _ cause => .inl cause
  | .line _ _ cause => .inr cause

namespace Document

variable {path : String} {known : Registry} {lines padded : Lines} {reading : Reading}

/-- **A document with more idle lines**, which stand anywhere in it. -/
inductive Padded : Lines → Lines → Prop
  | nil : Padded [] []
  | keep {lines padded : Lines} (line : Option (List Char)) (h : Padded lines padded) :
      Padded (line :: lines) (line :: padded)
  | pad {lines padded : Lines} {line : List Char} (hline : IsIdle line) (h : Padded lines padded) :
      Padded lines (some line :: padded)

/-- **Idle lines do not matter** for the graph, for the registry and for what is refused. -/
lemma readFrom_padded (h : Padded lines padded) (reading : Reading) (notes : List ℕ)
    (number number' : ℕ) :
    (readFrom path number' (reading.withNotes notes) padded).registry
        = (readFrom path number reading lines).registry ∧
      (readFrom path number' (reading.withNotes notes) padded).result.mapError DocumentFault.cause
        = (readFrom path number reading lines).result.mapError DocumentFault.cause := by
  -- Behind an idle line the numbers of the lines differ, and the notes may.
  induction h generalizing reading notes number number' with
  | nil => exact ⟨rfl, rfl⟩
  | @keep lines padded line _ ih =>
    cases line with
    | none => exact ⟨rfl, rfl⟩
    | some line =>
      obtain ⟨notes', hline⟩ := reading.readLine_withNotes notes number number' line
      rw [readFrom, readFrom, hline]
      cases reading.readLine number line with
      | error cause => exact ⟨rfl, rfl⟩
      | ok next => exact ih next notes' (number + 1) (number' + 1)
  | @pad lines padded line hline _ ih =>
    obtain ⟨notes', hline⟩ :=
      Reading.readLine_of_isIdle hline (reading.withNotes notes) number'
    rw [readFrom, hline]
    exact ih reading notes' number (number' + 1)

/-- **A line that is refused** leaves no names behind. -/
lemma registry_read_of_ofLine {above : Lines} {g : CallGraph} {cause : LineFault}
    (hok : (read path known above).result = .ok g) (hline : Statement.ofLine line = .error cause)
    (below : Lines) :
    (read path known (above ++ some line :: below)).registry
      = (read path known above).registry := by
  obtain ⟨reading, -, -, hbelow⟩ := exists_reading_of_read hok
  have habove := hbelow []
  rw [List.append_nil] at habove
  have hstop : readFrom path (above.length + 1) reading (some line :: below)
      = finish reading (.error (.line path (above.length + 1) cause)) := by
    rw [readFrom, Reading.readLine, hline]
    rfl
  rw [hbelow, habove, hstop]
  rfl

/-- **What nodes without a tooltip come to.**

* A line that looks like a node and lacks the attribute leaves a note and nothing else, unless the
  word `tooltip` stands in its attribute list as something else; then the line is refused.
* More idle lines in a document, which are such lines without the word and lines that do not start
  with `N`, change neither its graph nor the registry, nor whether it is refused and for what cause.
* A document is refused at such a line with the word, below lines that are accepted. -/
theorem read_untipped (path : String) (known : Registry) :
    (∀ line, LacksTooltip line → ∀ (reading : Reading) (number : ℕ),
      (¬ IsNodeLine line → reading.readLine number line
        = .ok { reading with untipped := reading.untipped ++ [number] }) ∧
      (IsNodeLine line → reading.readLine number line = .error (.noAttribute "tooltip"))) ∧
    (∀ lines padded, Padded lines padded →
      (read path known padded).registry = (read path known lines).registry ∧
      (read path known padded).result.mapError DocumentFault.cause
        = (read path known lines).result.mapError DocumentFault.cause) ∧
    ∀ above line below g, (read path known above).result = .ok g → LacksTooltip line →
      IsNodeLine line →
      (read path known (above ++ some line :: below)).registry
          = (read path known above).registry ∧
        (read path known (above ++ some line :: below)).result
          = .error (.line path (above.length + 1) (.noAttribute "tooltip")) := by
  refine ⟨fun line hline reading number => ⟨fun hword => ?_, fun hword => ?_⟩,
    fun lines padded h => readFrom_padded h (.start known) [] 1 1,
    fun above line below g hok hline hword => ?_⟩
  · exact Reading.readLine_eq_ok_iff.2 ⟨_, (Statement.ofLine_of_lacksTooltip hline).1 hword, rfl⟩
  · rw [Reading.readLine, (Statement.ofLine_of_lacksTooltip hline).2 hword]
    rfl
  · have hrefused := (Statement.ofLine_of_lacksTooltip hline).2 hword
    exact ⟨registry_read_of_ofLine hok hrefused below, read_eq_error_of_ofLine hok hrefused below⟩

/-- A node without a tooltip. -/
def legendLine : List Char :=
  "N2 [label=\"legend\"]".toList

/-- A node without a tooltip whose label has the word. -/
def wordLine : List Char :=
  "N3 [label=\"no tooltip\"]".toList

lemma cutFirst_legendLine : Text.cutFirst '[' (Statement.withoutTypeArguments legendLine)
    = some ("N2 ".toList, "label=\"legend\"]".toList) := by
  decide

lemma cutFirst_wordLine : Text.cutFirst '[' (Statement.withoutTypeArguments wordLine)
    = some ("N3 ".toList, "label=\"no tooltip\"]".toList) := by
  decide

lemma lacksTooltip_legendLine : LacksTooltip legendLine ∧ ¬ IsNodeLine legendLine := by
  refine ⟨⟨rfl, _, _, cutFirst_legendLine, by decide, by decide⟩, ?_⟩
  rw [(isNodeLine_iff_of_cut rfl cutFirst_legendLine).1]
  decide

lemma lacksTooltip_wordLine : LacksTooltip wordLine ∧ IsNodeLine wordLine := by
  refine ⟨⟨rfl, _, _, cutFirst_wordLine, by decide, by decide⟩, ?_⟩
  rw [(isNodeLine_iff_of_cut rfl cutFirst_wordLine).1]
  decide

theorem read_untipped_legend :
    let known := (Registry.empty.registerAll ["x"]).1
    let node := some "N1 [label=\"1s %\" tooltip=\"a\"]".toList
    let padded := [some "digraph".toList, node, some legendLine]
    (LacksTooltip legendLine ∧ ¬ IsNodeLine legendLine) ∧
    (LacksTooltip wordLine ∧ IsNodeLine wordLine) ∧
    Padded [node] padded ∧
    (read inMemory known padded).registry = (read inMemory known [node]).registry ∧
    (read inMemory known padded).result.mapError DocumentFault.cause
      = (read inMemory known [node]).result.mapError DocumentFault.cause ∧
    ∃ g, (read inMemory known padded).result = .ok g ∧
      (read inMemory known (padded ++ [some wordLine])).result
        = .error (.line inMemory 4 (.noAttribute "tooltip")) := by
  intro known node padded
  have hpadded : Padded [node] padded :=
    .pad (.inl (by decide)) (.keep _ (.pad (.inr lacksTooltip_legendLine) .nil))
  obtain ⟨-, hidle, hrefused⟩ := read_untipped inMemory known
  obtain ⟨hregistry, hresult⟩ := hidle _ _ hpadded
  obtain ⟨g, hok⟩ : ∃ g, (read inMemory known padded).result = .ok g := ⟨_, rfl⟩
  exact ⟨lacksTooltip_legendLine, lacksTooltip_wordLine, hpadded, hregistry, hresult, g, hok,
    (hrefused padded wordLine [] g hok lacksTooltip_wordLine.1 lacksTooltip_wordLine.2).2⟩

/-- **A node without a tooltip may be refused**, and with it its document. -/
theorem read_wordLine :
    LacksTooltip wordLine ∧ (read inMemory .empty []).result = .ok .empty ∧
    (read inMemory .empty [some wordLine]).result
      = .error (.line inMemory 1 (.noAttribute "tooltip")) := by
  have hempty : (read inMemory .empty []).result = .ok .empty := rfl
  refine ⟨lacksTooltip_wordLine.1, hempty, ?_⟩
  have hrefused := (Statement.ofLine_of_lacksTooltip lacksTooltip_wordLine.1).2
    lacksTooltip_wordLine.2
  exact read_eq_error_of_ofLine hempty hrefused []

end Document

end BenchCover.Dot
