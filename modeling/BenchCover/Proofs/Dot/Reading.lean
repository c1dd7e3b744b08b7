import BenchCover.Dot.Document
import BenchCover.Proofs.Dot.Statement
import BenchCover.Proofs.Function.Registry
import BenchCover.Proofs.Graph.Subgraph

/-!
# Reading with a registry, and by names alone

What a document comes to depends on the registry that it is read with only in the ids.

**Named graphs.**  `Reading.Sound` is the invariant of reading: the functions so far have the ids of
their names, and identifiers stand for functions of the graph.  It follows that a call never misses
an end (`exists_setCall`), and that a graph is named by the registry it was read with
(`Document.namedBy_of_read`), which has only grown.

**Outlines.**  An `Outline` is what a reading comes to without ids, and `Outline.apply` reads a
statement into it without any registry.  Reading with a registry and then dropping the ids is the
same as reading into the outline (`Reading.outline_apply`), so that two registries give the same
functions by name, or the same fault (`Document.labels_read`).
-/

namespace BenchCover

namespace CallGraph

/-- **The functions of a graph without their ids**: names and times. -/
def labels (g : CallGraph) : List (String × Duration × Duration) :=
  g.functions.map fun f => (f.name, f.selfTime, f.totalTime)

lemma labels_addFunction (g : CallGraph) (f : Function) :
    (g.addFunction f).labels
      = if f.id ∈ g.ids then g.labels
        else g.labels ++ [(f.name, f.selfTime, f.totalTime)] := by
  rw [addFunction]
  split_ifs
  · rfl
  · exact List.map_append

end CallGraph

namespace Dot

/-! ## Steps -/

namespace Reading

variable {reading next : Reading} {number : Nat}

/-- A line is read if its statement is, and then the statement is applied. -/
lemma readLine_eq_ok_iff {line : List Char} : reading.readLine number line = .ok next ↔
    ∃ statement, Statement.ofLine line = .ok statement ∧
      reading.apply number statement = .ok next :=
  bind_eq_ok_iff

lemma resolve_eq_ok_iff {which : CallEnd} {identifier : List Char} {id : FunctionId} :
    reading.resolve which identifier = .ok id ↔ reading.identifiers.lookup identifier = some id := by
  rw [resolve]
  cases reading.identifiers.lookup identifier with
  | none => simp
  | some found => simp

/-- **What an edge does**: its identifiers are known, and the call is set. -/
lemma addEdge_eq_ok_iff {caller callee : List Char} {time : Except LineFault Duration} :
    reading.addEdge caller callee time = .ok next ↔
      ∃ a b duration graph, reading.identifiers.lookup caller = some a ∧
        reading.identifiers.lookup callee = some b ∧ time = .ok duration ∧
        reading.graph.setCall ⟨a, b, duration⟩ = .ok graph ∧ next = { reading with graph } := by
  have hread : reading.addEdge caller callee time
      = (reading.resolve .caller caller).bind fun a => (reading.resolve .callee callee).bind fun b =>
        time.bind fun duration =>
          ((reading.graph.setCall ⟨a, b, duration⟩).mapError .missingEnd).bind fun graph =>
            .ok { reading with graph } := rfl
  rw [hread, bind_eq_ok_iff]
  constructor
  · rintro ⟨a, hcaller, hrest⟩
    obtain ⟨b, hcallee, hrest⟩ := bind_eq_ok_iff.1 hrest
    obtain ⟨duration, htime, hrest⟩ := bind_eq_ok_iff.1 hrest
    obtain ⟨graph, hset, hnext⟩ := bind_eq_ok_iff.1 hrest
    refine ⟨a, b, duration, graph, resolve_eq_ok_iff.1 hcaller, resolve_eq_ok_iff.1 hcallee, htime, ?_,
      (Except.ok.inj hnext).symm⟩
    cases hgraph : reading.graph.setCall ⟨a, b, duration⟩ with
    | error fault =>
      rw [hgraph] at hset
      cases hset
    | ok other =>
      rw [hgraph] at hset
      exact congrArg Except.ok (Except.ok.inj hset)
  · rintro ⟨a, b, duration, graph, hcaller, hcallee, rfl, hset, rfl⟩
    refine ⟨a, resolve_eq_ok_iff.2 hcaller, bind_eq_ok_iff.2 ⟨b, resolve_eq_ok_iff.2 hcallee, ?_⟩⟩
    show ((reading.graph.setCall ⟨a, b, duration⟩).mapError LineFault.missingEnd).bind _ = _
    rw [hset]
    rfl

end Reading

/-! ## Named graphs -/

namespace Reading

variable {reading next : Reading}

/-- **What reading keeps up**: functions have the ids of their names, and identifiers stand for
functions of the graph. -/
structure Sound (reading : Reading) : Prop where
  named : reading.graph.NamedBy reading.registry
  identified : ∀ entry ∈ reading.identifiers, entry.2 ∈ reading.graph.ids

lemma sound_start (registry : Registry) : (start registry).Sound where
  named := CallGraph.namedBy_empty registry
  identified := fun _ hentry => absurd hentry List.not_mem_nil

lemma extends_addNode (reading : Reading) (identifier : List Char) (function : String)
    (times : Times) :
    reading.registry.Extends (reading.addNode identifier function times).registry :=
  Registry.extends_register reading.registry function

lemma Sound.addNode (h : reading.Sound) (identifier : List Char) (function : String)
    (times : Times) : (reading.addNode identifier function times).Sound where
  named := by
    intro f hf
    rcases CallGraph.mem_functions_addFunction _ _ hf with hf | rfl
    · exact (extends_addNode reading identifier function times).keeps_name (h.named f hf)
    · exact Registry.name_register reading.registry function
  identified := by
    intro entry hentry
    refine (CallGraph.mem_ids_addFunction _ _).2 ?_
    rcases List.mem_cons.1 hentry with rfl | hentry
    · exact Or.inr rfl
    · exact Or.inl (h.identified entry hentry)

/-- An identifier is resolved if it is known, and then to a function of the graph. -/
lemma Sound.resolve_eq (h : reading.Sound) (which : CallEnd) (identifier : List Char) :
    (identifier ∈ reading.identifiers.map (·.1) ∧
        ∃ id ∈ reading.graph.ids, reading.resolve which identifier = .ok id) ∨
      identifier ∉ reading.identifiers.map (·.1) ∧
        reading.resolve which identifier
          = .error (.unknownEndpoint which (String.ofList identifier)) := by
  rw [resolve]
  cases hlookup : reading.identifiers.lookup identifier with
  | some id =>
    obtain ⟨front, back, hsplit, -⟩ := List.lookup_eq_some_iff.1 hlookup
    have hentry : (identifier, id) ∈ reading.identifiers := by simp [hsplit]
    exact Or.inl ⟨List.mem_map_of_mem hentry, id, h.identified _ hentry, rfl⟩
  | none =>
    refine Or.inr ⟨fun hmem => ?_, rfl⟩
    obtain ⟨entry, hentry, rfl⟩ := List.mem_map.1 hmem
    simpa using List.lookup_eq_none_iff.1 hlookup entry hentry

end Reading

/-! ## Outlines -/

/-- **What a reading comes to by names alone.** -/
structure Outline where
  functions : List (String × Duration × Duration)
  /-- The identifiers that stand for some function. -/
  identifiers : List (List Char)

namespace Outline

def start : Outline := ⟨[], []⟩

def addNode (outline : Outline) (identifier : List Char) (function : String) (times : Times) :
    Outline where
  functions :=
    if Text.trimmed function ∈ outline.functions.map (·.1) then outline.functions
    else outline.functions ++ [(Text.trimmed function, times.selfTime, times.totalTime)]
  identifiers := identifier :: outline.identifiers

def require (outline : Outline) (which : CallEnd) (identifier : List Char) :
    Except LineFault Unit :=
  if identifier ∈ outline.identifiers then .ok ()
  else .error (.unknownEndpoint which (String.ofList identifier))

/-- An edge adds nothing, but it may be refused. -/
def addEdge (outline : Outline) (caller callee : List Char) (time : Except LineFault Duration) :
    Except LineFault Outline := do
  outline.require .caller caller
  outline.require .callee callee
  let _ ← time
  return outline

def apply (outline : Outline) : Statement → Except LineFault Outline
  | .nothing | .untipped => .ok outline
  | .node identifier function times => .ok (outline.addNode identifier function times)
  | .edge caller callee time => outline.addEdge caller callee time

/-- Reads the lines of a document from number `number` on. -/
def readFrom (path : String) (number : Nat) (outline : Outline) :
    Document.Lines → Except DocumentFault Outline
  | [] => .ok outline
  | none :: _ => .error (.file path .notText)
  | some line :: rest =>
    match (Statement.ofLine line).bind outline.apply with
    | .error cause => .error (.line path number cause)
    | .ok outline => readFrom path (number + 1) outline rest

end Outline

namespace Reading

variable {reading next : Reading}

def outline (reading : Reading) : Outline where
  functions := reading.graph.labels
  identifiers := reading.identifiers.map (·.1)

/-- The function that a name is registered for is in the graph if and only if its name is. -/
lemma Sound.mem_ids_register_iff (h : reading.Sound) (function : String) :
    (reading.registry.register function).2 ∈ reading.graph.ids ↔
      Text.trimmed function ∈ reading.graph.labels.map (·.1) := by
  have hgrown := h.named.mono (reading.registry.extends_register function)
  have hname := reading.registry.name_register function
  rw [CallGraph.mem_ids_iff]
  simp only [CallGraph.labels, List.map_map, List.mem_map, Function.comp_apply]
  constructor
  · rintro ⟨f, hf, hid⟩
    rw [← hid, hgrown f hf] at hname
    exact ⟨f, hf, Except.ok.inj hname⟩
  · rintro ⟨f, hf, hsame⟩
    exact ⟨f, hf, Registry.id_unique (hgrown f hf) (hsame ▸ hname)⟩

lemma Sound.outline_addNode (h : reading.Sound) (identifier : List Char) (function : String)
    (times : Times) :
    (reading.addNode identifier function times).outline
      = reading.outline.addNode identifier function times := by
  have hmem := h.mem_ids_register_iff function
  have hlabels : (reading.addNode identifier function times).graph.labels
      = (reading.outline.addNode identifier function times).functions := by
    rw [show (reading.addNode identifier function times).graph.labels
      = if (reading.registry.register function).2 ∈ reading.graph.ids then reading.graph.labels
        else reading.graph.labels ++ [(Text.trimmed function, times.selfTime, times.totalTime)]
      from CallGraph.labels_addFunction _ _]
    exact ite_congr (propext hmem) (fun _ => rfl) fun _ => rfl
  exact congrArg (Outline.mk · (identifier :: reading.identifiers.map (·.1))) hlabels

/-- **What an edge does**: it is refused as in the outline, or it changes calls only. -/
lemma Sound.addEdge_eq (h : reading.Sound) (caller callee : List Char)
    (time : Except LineFault Duration) :
    (∃ graph, reading.addEdge caller callee time = .ok { reading with graph } ∧
        graph.functions = reading.graph.functions ∧
        reading.outline.addEdge caller callee time = .ok reading.outline) ∨
      ∃ cause, reading.addEdge caller callee time = .error cause ∧
        reading.outline.addEdge caller callee time = .error cause := by
  rcases h.resolve_eq .caller caller with ⟨hknown, a, ha, hcaller⟩ | ⟨hunknown, hcaller⟩
  case inr =>
    refine Or.inr ⟨_, by rw [addEdge, hcaller]; rfl, ?_⟩
    rw [Outline.addEdge, Outline.require, if_neg (by exact hunknown)]
    rfl
  rcases h.resolve_eq .callee callee with ⟨hknown', b, hb, hcallee⟩ | ⟨hunknown', hcallee⟩
  case inr =>
    refine Or.inr ⟨_, by rw [addEdge, hcaller, hcallee]; rfl, ?_⟩
    rw [Outline.addEdge, Outline.require, Outline.require, if_pos (by exact hknown),
      if_neg (by exact hunknown')]
    rfl
  cases time with
  | error cause =>
    refine Or.inr ⟨cause, by rw [addEdge, hcaller, hcallee]; rfl, ?_⟩
    rw [Outline.addEdge, Outline.require, Outline.require, if_pos (by exact hknown),
      if_pos (by exact hknown')]
    rfl
  | ok duration =>
    obtain ⟨graph, hset, hfunctions⟩ : ∃ graph, reading.graph.setCall ⟨a, b, duration⟩ = .ok graph ∧
        graph.functions = reading.graph.functions := CallGraph.exists_setCall ha hb
    refine Or.inl ⟨graph, ?_, hfunctions, ?_⟩
    · rw [addEdge, hcaller, hcallee]
      show (((reading.graph.setCall ⟨a, b, duration⟩).mapError LineFault.missingEnd).bind
        fun graph => .ok { reading with graph }) = _
      rw [hset]
      rfl
    · rw [Outline.addEdge, Outline.require, Outline.require, if_pos (by exact hknown),
        if_pos (by exact hknown')]
      rfl

/-- **A statement keeps the invariant**, and the registry grows. -/
lemma Sound.apply (h : reading.Sound) {number : Nat} {statement : Statement}
    (hok : reading.apply number statement = .ok next) :
    next.Sound ∧ reading.registry.Extends next.registry := by
  cases statement with
  | nothing =>
    obtain rfl := Except.ok.inj hok
    exact ⟨h, .refl _⟩
  | untipped =>
    obtain rfl := Except.ok.inj hok
    exact ⟨⟨h.named, h.identified⟩, .refl _⟩
  | node identifier function times =>
    obtain rfl := Except.ok.inj hok
    exact ⟨h.addNode identifier function times, extends_addNode reading identifier function times⟩
  | edge caller callee time =>
    rcases h.addEdge_eq caller callee time with ⟨graph, hedge, hfunctions, -⟩ | ⟨cause, hedge, -⟩
    · obtain rfl := Except.ok.inj (hedge.symm.trans hok)
      refine ⟨⟨fun f hf => h.named f (hfunctions ▸ hf), fun entry hentry => ?_⟩, .refl _⟩
      have hids := h.identified entry hentry
      rwa [CallGraph.ids, ← hfunctions] at hids
    · cases hedge.symm.trans hok

/-- **Dropping the ids commutes with reading a statement.** -/
theorem Sound.outline_apply (h : reading.Sound) (number : Nat) (statement : Statement) :
    (reading.apply number statement).map outline = reading.outline.apply statement := by
  cases statement with
  | nothing => rfl
  | untipped => rfl
  | node identifier function times =>
    exact congrArg Except.ok (h.outline_addNode identifier function times)
  | edge caller callee time =>
    rcases h.addEdge_eq caller callee time with
      ⟨graph, hedge, hfunctions, houtline⟩ | ⟨cause, hedge, houtline⟩
    · rw [Reading.apply, hedge, Outline.apply, houtline]
      simp only [Except.map, outline, CallGraph.labels, hfunctions]
    · rw [Reading.apply, hedge, Outline.apply, houtline]
      rfl

end Reading

/-! ## Documents -/

namespace Document

variable {path : String} {number : Nat} {reading : Reading} {lines : Lines}

/-- **What reading a document leaves**: a larger registry, a graph that is named by it, and the
outline that reading by names alone gives. -/
theorem readFrom_spec (h : reading.Sound) :
    reading.registry.Extends (readFrom path number reading lines).registry ∧
      (∀ g, (readFrom path number reading lines).result = .ok g →
        g.NamedBy (readFrom path number reading lines).registry) ∧
      (readFrom path number reading lines).result.map CallGraph.labels
        = (Outline.readFrom path number reading.outline lines).map (·.functions) := by
  fun_induction readFrom path number reading lines with
  | case1 number reading =>
    refine ⟨.refl _, fun g hg => ?_, rfl⟩
    obtain rfl := Except.ok.inj hg
    exact h.named
  | case2 number reading rest =>
    refine ⟨.refl _, fun g hg => ?_, rfl⟩
    cases hg
  | case3 number reading line rest cause hline =>
    refine ⟨.refl _, fun g hg => (by cases hg), ?_⟩
    have houtline : (Statement.ofLine line).bind reading.outline.apply = .error cause := by
      rw [Reading.readLine] at hline
      cases hstatement : Statement.ofLine line with
      | error other =>
        rw [hstatement] at hline
        cases hline
        rfl
      | ok statement =>
        rw [hstatement] at hline
        have happly := h.outline_apply number statement
        rw [show reading.apply number statement = .error cause from hline] at happly
        exact happly.symm
    rw [Outline.readFrom, houtline]
    rfl
  | case4 number reading line rest next hline ih =>
    obtain ⟨statement, hstatement, happly⟩ := Reading.readLine_eq_ok_iff.1 hline
    obtain ⟨hsound, hextends⟩ := h.apply happly
    obtain ⟨hgrown, hnamed, hlabels⟩ := ih hsound
    refine ⟨hextends.trans hgrown, hnamed, ?_⟩
    have houtline : (Statement.ofLine line).bind reading.outline.apply = .ok next.outline := by
      rw [hstatement]
      show reading.outline.apply statement = _
      rw [← h.outline_apply number statement, happly]
      rfl
    rw [Outline.readFrom, houtline]
    exact hlabels

lemma extends_read (path : String) (registry : Registry) (lines : Lines) :
    registry.Extends (read path registry lines).registry :=
  (readFrom_spec (Reading.sound_start registry)).1

/-- **A document is read into a graph that is named by the registry.** -/
theorem namedBy_of_read {registry : Registry} {g : CallGraph}
    (hg : (read path registry lines).result = .ok g) :
    g.NamedBy (read path registry lines).registry :=
  (readFrom_spec (Reading.sound_start registry)).2.1 g hg

/-- **The functions of a document by name, and its fault, do not depend on the registry.** -/
theorem labels_read (path : String) (registry registry' : Registry) (lines : Lines) :
    (read path registry lines).result.map CallGraph.labels
      = (read path registry' lines).result.map CallGraph.labels :=
  (readFrom_spec (Reading.sound_start registry)).2.2.trans
    (readFrom_spec (Reading.sound_start registry')).2.2.symm

end Document

end Dot

end BenchCover
