import BenchCover.Proofs.Dot.Meaning
import BenchCover.Proofs.Text.Lines

/-!
# Where a document is refused

**Lines.**  A line is refused for what it says itself, or because it is an edge with an identifier
that no node line above it has.  `Refused` tells each fault by what was looked at before it.  A
reading refuses exactly these lines (`Reading.Sound.readLine_eq_error_iff`); of what was read before
only the identifiers matter, and a line that is refused leaves no name behind.

**Documents.**  A document is refused at the first of its lines that is: what stands above is accepted
by itself, and the names that it registers are those that are known afterwards.  The lines are
counted from one, whether they say anything or not: `Document.read_eq_error_iff`.
-/

namespace BenchCover.Dot

open Statement (arrow nameOf withoutTypeArguments)

variable {line head list caller callee : List Char} {identifiers : List (List Char)}
  {cause : LineFault}

/-! ## Lines that are refused -/

/-- **Why the attributes of a node are refused**: its tooltip, the name in it, its label and the times
in that are looked at in this order. -/
inductive NodeRefused (list : List Char) : LineFault → Prop
  | noTooltip (hnone : attribute? "tooltip" list = none) :
      NodeRefused list (.noAttribute "tooltip")
  | noName {tooltip : List Char} (htooltip : attribute? "tooltip" list = some tooltip)
      (hname : nameOf tooltip = []) : NodeRefused list .emptyName
  | noLabel {tooltip : List Char} (htooltip : attribute? "tooltip" list = some tooltip)
      (hname : nameOf tooltip ≠ []) (hnone : attribute? "label" list = none) :
      NodeRefused list (.noAttribute "label")
  | times {tooltip label : List Char} {cause : LineFault}
      (htooltip : attribute? "tooltip" list = some tooltip) (hname : nameOf tooltip ≠ [])
      (hlabel : attribute? "label" list = some label)
      (htimes : Times.ofLabel (String.ofList (nameOf tooltip)) label = .error cause) :
      NodeRefused list cause

/-- **Why an edge is refused** where some identifiers are known: its ends are told apart and looked up,
the caller first, and then its label and the time in that are looked at. -/
inductive EdgeRefused (identifiers : List (List Char)) (head list : List Char) : LineFault → Prop
  | ends (hends : (Text.split arrow head).length ≠ 2) :
      EdgeRefused identifiers head list (.notTwoEndpoints (String.ofList head))
  | caller {caller callee : List Char}
      (hends : (Text.split arrow head).map Text.trim = [caller, callee])
      (hcaller : caller ∉ identifiers) :
      EdgeRefused identifiers head list (.unknownEndpoint .caller (String.ofList caller))
  | callee {caller callee : List Char}
      (hends : (Text.split arrow head).map Text.trim = [caller, callee])
      (hcaller : caller ∈ identifiers) (hcallee : callee ∉ identifiers) :
      EdgeRefused identifiers head list (.unknownEndpoint .callee (String.ofList callee))
  | noLabel {caller callee : List Char}
      (hends : (Text.split arrow head).map Text.trim = [caller, callee])
      (hcaller : caller ∈ identifiers) (hcallee : callee ∈ identifiers)
      (hnone : attribute? "label" list = none) :
      EdgeRefused identifiers head list (.noAttribute "label")
  | time {caller callee label : List Char} {cause : LineFault}
      (hends : (Text.split arrow head).map Text.trim = [caller, callee])
      (hcaller : caller ∈ identifiers) (hcallee : callee ∈ identifiers)
      (hlabel : attribute? "label" list = some label) (htime : callTime label = .error cause) :
      EdgeRefused identifiers head list cause

/-- **Why a line is refused** where some identifiers are known.  Lines that do not start with `N` are
not, and neither are nodes without a tooltip. -/
inductive Refused (identifiers : List (List Char)) (line : List Char) : LineFault → Prop
  | uncut (hhead : line.head? = some 'N') (hnone : '[' ∉ withoutTypeArguments line) :
      Refused identifiers line
        (.noAttributes (String.ofList (Text.trim (withoutTypeArguments line))))
  | node {head list : List Char} {cause : LineFault} (hhead : line.head? = some 'N')
      (hcut : Text.cutFirst '[' (withoutTypeArguments line) = some (head, list))
      (harrow : ¬ arrow <:+: head) (htooltip : "tooltip".toList <:+: list)
      (hlist : NodeRefused (Text.trim list) cause) : Refused identifiers line cause
  | edge {head list : List Char} {cause : LineFault} (hhead : line.head? = some 'N')
      (hcut : Text.cutFirst '[' (withoutTypeArguments line) = some (head, list))
      (harrow : arrow <:+: head)
      (hedge : EdgeRefused identifiers (Text.trim head) (Text.trim list) cause) :
      Refused identifiers line cause

/-! ### What is refused by itself -/

lemma bind_eq_error_iff {ε α β : Type} {x : Except ε α} {f : α → Except ε β} {fault : ε} :
    x.bind f = .error fault ↔ x = .error fault ∨ ∃ a, x = .ok a ∧ f a = .error fault := by
  cases x <;> simp [Except.bind]

namespace Statement

lemma required_eq_error_iff {name : String} :
    required name list = .error cause ↔
      attribute? name list = none ∧ cause = .noAttribute name := by
  rw [required]
  cases attribute? name list with
  | none => simp [eq_comm]
  | some value => simp

lemma ofNode_eq_error_iff {identifier : List Char} :
    ofNode identifier list = .error cause ↔ NodeRefused list cause := by
  have hread : ofNode identifier list = (required "tooltip" list).bind fun tooltip =>
      if (nameOf tooltip).isEmpty then .error .emptyName
      else (required "label" list).bind fun label =>
        (Times.ofLabel (String.ofList (nameOf tooltip)) label).bind fun times =>
          .ok (.node identifier (String.ofList (nameOf tooltip)) times) := rfl
  rw [hread, bind_eq_error_iff, required_eq_error_iff]
  constructor
  · rintro (⟨hnone, rfl⟩ | ⟨tooltip, htooltip, hrest⟩)
    · exact .noTooltip hnone
    rw [required_eq_ok_iff] at htooltip
    split_ifs at hrest with hname
    · obtain rfl := Except.error.inj hrest
      exact .noName htooltip (by simpa using hname)
    rw [bind_eq_error_iff, required_eq_error_iff] at hrest
    replace hname : nameOf tooltip ≠ [] := by simpa using hname
    rcases hrest with ⟨hnone, rfl⟩ | ⟨label, hlabel, hrest⟩
    · exact .noLabel htooltip hname hnone
    rcases bind_eq_error_iff.1 hrest with htimes | ⟨times, -, hnode⟩
    · exact .times htooltip hname (required_eq_ok_iff.1 hlabel) htimes
    · cases hnode
  · intro h
    cases h with
    | noTooltip hnone => exact Or.inl ⟨hnone, rfl⟩
    | noName htooltip hname =>
      exact Or.inr ⟨_, required_eq_ok_iff.2 htooltip, by rw [if_pos (by simpa using hname)]⟩
    | noLabel htooltip hname hnone =>
      refine Or.inr ⟨_, required_eq_ok_iff.2 htooltip, ?_⟩
      rw [if_neg (by simpa using hname)]
      exact bind_eq_error_iff.2 (Or.inl (required_eq_error_iff.2 ⟨hnone, rfl⟩))
    | times htooltip hname hlabel htimes =>
      refine Or.inr ⟨_, required_eq_ok_iff.2 htooltip, ?_⟩
      rw [if_neg (by simpa using hname)]
      exact bind_eq_error_iff.2 (Or.inr ⟨_, required_eq_ok_iff.2 hlabel,
        bind_eq_error_iff.2 (Or.inl htimes)⟩)

/-- The ends of an edge, if there are two of them. -/
lemma ofEdge_eq (head list : List Char) :
    (∃ caller callee, (Text.split arrow head).map Text.trim = [caller, callee] ∧
        ofEdge head list = .ok (.edge caller callee ((required "label" list).bind callTime))) ∨
      (Text.split arrow head).length ≠ 2 ∧
        ofEdge head list = .error (.notTwoEndpoints (String.ofList head)) := by
  rw [ofEdge]
  split
  · next caller callee hends => exact Or.inl ⟨caller, callee, hends, rfl⟩
  · next hends =>
    refine Or.inr ⟨fun hlength => ?_, rfl⟩
    obtain ⟨first, second, hsplit⟩ := List.length_eq_two.1 hlength
    exact hends _ _ (by rw [hsplit]; rfl)

end Statement

/-! ### What is refused below other lines -/

/-- An edge with two ends is refused for one of them or for its label. -/
lemma edgeRefused_iff_of_ends (hends : (Text.split arrow head).map Text.trim = [caller, callee]) :
    EdgeRefused identifiers head list cause ↔
      caller ∉ identifiers ∧ cause = .unknownEndpoint .caller (String.ofList caller) ∨
      caller ∈ identifiers ∧ callee ∉ identifiers ∧
        cause = .unknownEndpoint .callee (String.ofList callee) ∨
      caller ∈ identifiers ∧ callee ∈ identifiers ∧
        (attribute? "label" list = none ∧ cause = .noAttribute "label" ∨
          ∃ label, attribute? "label" list = some label ∧ callTime label = .error cause) := by
  constructor
  · intro h
    cases h with
    | ends hlength =>
      have htwo := congrArg List.length hends
      rw [List.length_map] at htwo
      exact absurd htwo hlength
    | caller hends' hcaller =>
      obtain ⟨rfl, rfl⟩ := by simpa using hends.symm.trans hends'
      exact Or.inl ⟨hcaller, rfl⟩
    | callee hends' hcaller hcallee =>
      obtain ⟨rfl, rfl⟩ := by simpa using hends.symm.trans hends'
      exact Or.inr (Or.inl ⟨hcaller, hcallee, rfl⟩)
    | noLabel hends' hcaller hcallee hnone =>
      obtain ⟨rfl, rfl⟩ := by simpa using hends.symm.trans hends'
      exact Or.inr (Or.inr ⟨hcaller, hcallee, Or.inl ⟨hnone, rfl⟩⟩)
    | time hends' hcaller hcallee hlabel htime =>
      obtain ⟨rfl, rfl⟩ := by simpa using hends.symm.trans hends'
      exact Or.inr (Or.inr ⟨hcaller, hcallee, Or.inr ⟨_, hlabel, htime⟩⟩)
  · rintro (⟨hcaller, rfl⟩ | ⟨hcaller, hcallee, rfl⟩ |
      ⟨hcaller, hcallee, ⟨hnone, rfl⟩ | ⟨label, hlabel, htime⟩⟩)
    · exact .caller hends hcaller
    · exact .callee hends hcaller hcallee
    · exact .noLabel hends hcaller hcallee hnone
    · exact .time hends hcaller hcallee hlabel htime

lemma edgeRefused_iff_of_length (hlength : (Text.split arrow head).length ≠ 2) :
    EdgeRefused identifiers head list cause ↔ cause = .notTwoEndpoints (String.ofList head) := by
  have hnot : ∀ caller callee, (Text.split arrow head).map Text.trim ≠ [caller, callee] :=
    fun caller callee hends => hlength (by simpa using congrArg List.length hends)
  constructor
  · intro h
    cases h with
    | ends => rfl
    | caller hends => exact absurd hends (hnot _ _)
    | callee hends => exact absurd hends (hnot _ _)
    | noLabel hends => exact absurd hends (hnot _ _)
    | time hends => exact absurd hends (hnot _ _)
  · rintro rfl
    exact .ends hlength

namespace Outline

variable {outline : Outline}

lemma addEdge_eq_error_iff {time : Except LineFault Duration} :
    outline.addEdge caller callee time = .error cause ↔
      caller ∉ outline.identifiers ∧ cause = .unknownEndpoint .caller (String.ofList caller) ∨
      caller ∈ outline.identifiers ∧ callee ∉ outline.identifiers ∧
        cause = .unknownEndpoint .callee (String.ofList callee) ∨
      caller ∈ outline.identifiers ∧ callee ∈ outline.identifiers ∧ time = .error cause := by
  have hread : outline.addEdge caller callee time = (outline.require .caller caller).bind fun _ =>
      (outline.require .callee callee).bind fun _ => time.bind fun _ => .ok outline := rfl
  rw [hread, require, require]
  by_cases hcaller : caller ∈ outline.identifiers
  · by_cases hcallee : callee ∈ outline.identifiers
    · cases time <;> simp [hcaller, hcallee, Except.bind]
    · simp [hcaller, hcallee, Except.bind, eq_comm]
  · simp [hcaller, Except.bind, eq_comm]

lemma ofEdge_bind_eq_error_iff :
    (Statement.ofEdge head list).bind outline.apply = .error cause ↔
      EdgeRefused outline.identifiers head list cause := by
  rcases Statement.ofEdge_eq head list with ⟨caller, callee, hends, hedge⟩ | ⟨hlength, hedge⟩
  · rw [hedge, edgeRefused_iff_of_ends hends]
    show outline.addEdge caller callee _ = .error cause ↔ _
    rw [addEdge_eq_error_iff, bind_eq_error_iff, Statement.required_eq_error_iff]
    simp only [Statement.required_eq_ok_iff]
  · rw [hedge, edgeRefused_iff_of_length hlength]
    exact ⟨fun h => (Except.error.inj h).symm, fun h => congrArg Except.error h.symm⟩

end Outline

/-- A line that is cut at a bracket is refused for what stands around it. -/
lemma refused_iff_of_cut (hhead : line.head? = some 'N')
    (hcut : Text.cutFirst '[' (withoutTypeArguments line) = some (head, list)) :
    Refused identifiers line cause ↔
      arrow <:+: head ∧ EdgeRefused identifiers (Text.trim head) (Text.trim list) cause ∨
      ¬ arrow <:+: head ∧ "tooltip".toList <:+: list ∧ NodeRefused (Text.trim list) cause := by
  constructor
  · intro h
    cases h with
    | uncut _ hnone => cases hcut.symm.trans (Text.cutFirst_eq_none_iff.2 hnone)
    | node _ hcut' harrow htooltip hlist =>
      obtain ⟨rfl, rfl⟩ := Prod.mk.inj (Option.some.inj (hcut.symm.trans hcut'))
      exact Or.inr ⟨harrow, htooltip, hlist⟩
    | edge _ hcut' harrow hedge =>
      obtain ⟨rfl, rfl⟩ := Prod.mk.inj (Option.some.inj (hcut.symm.trans hcut'))
      exact Or.inl ⟨harrow, hedge⟩
  · rintro (⟨harrow, hedge⟩ | ⟨harrow, htooltip, hlist⟩)
    · exact .edge hhead hcut harrow hedge
    · exact .node hhead hcut harrow htooltip hlist

/-- **What is refused by names alone**: of what was read before only the identifiers matter. -/
lemma Outline.ofLine_bind_eq_error_iff {outline : Outline} :
    (Statement.ofLine line).bind outline.apply = .error cause ↔
      Refused outline.identifiers line cause := by
  by_cases hhead : line.head? = some 'N'
  case neg =>
    rw [Statement.ofLine_of_head hhead]
    refine iff_of_false (fun h => by cases h) fun h => ?_
    cases h <;> contradiction
  cases hcut : Text.cutFirst '[' (withoutTypeArguments line) with
  | none =>
    have hline : Statement.ofLine line
        = .error (.noAttributes (String.ofList (Text.trim (withoutTypeArguments line)))) := by
      simp only [Statement.ofLine, hhead, hcut, bne_self_eq_false, Bool.false_eq_true, if_false]
    rw [hline]
    constructor
    · intro h
      obtain rfl := Except.error.inj h
      exact .uncut hhead (Text.cutFirst_eq_none_iff.1 hcut)
    · intro h
      cases h with
      | uncut => rfl
      | node _ hcut' => cases hcut.symm.trans hcut'
      | edge _ hcut' => cases hcut.symm.trans hcut'
  | some parts =>
    obtain ⟨head, list⟩ := parts
    rw [Statement.ofLine_of_cut hhead hcut, refused_iff_of_cut hhead hcut,
      ← contains_arrow_trim_iff, ← contains_tooltip_trim_iff]
    split_ifs with harrow htooltip
    · simp only [harrow, ofEdge_bind_eq_error_iff, true_and, not_true, false_and, or_false]
    · simp only [Bool.not_eq_true'] at htooltip
      simp only [harrow, htooltip, Bool.false_eq_true, false_and, and_false, or_false, iff_false]
      intro h
      cases h
    · simp only [Bool.not_eq_true', Bool.not_eq_false] at htooltip
      have hnode : Statement.ofNode (Text.trim head) (Text.trim list) = .error cause ↔
          NodeRefused (Text.trim list) cause := Statement.ofNode_eq_error_iff
      simp only [harrow, htooltip, Bool.false_eq_true, not_false_eq_true, false_and, true_and,
        false_or, ← hnode, bind_eq_error_iff]
      -- a node is never refused once its line has been read
      refine or_iff_left fun h => ?_
      obtain ⟨statement, hstatement, happly⟩ := h
      obtain ⟨tooltip, label, times, -, -, -, -, rfl⟩ := Statement.ofNode_eq_ok_iff.1 hstatement
      cases happly

/-- **What a reading refuses** is told by the identifiers that it knows. -/
theorem Reading.Sound.readLine_eq_error_iff {reading : Reading} (h : reading.Sound)
    {number : ℕ} : reading.readLine number line = .error cause ↔
      Refused (reading.identifiers.map (·.1)) line cause := by
  have houtline : (reading.readLine number line).map Reading.outline
      = (Statement.ofLine line).bind reading.outline.apply := by
    rw [Reading.readLine]
    cases Statement.ofLine line with
    | error other => rfl
    | ok statement => exact h.outline_apply number statement
  have hrefused : (Statement.ofLine line).bind reading.outline.apply = .error cause ↔
      Refused (reading.identifiers.map (·.1)) line cause := Outline.ofLine_bind_eq_error_iff
  rw [← hrefused, ← houtline]
  cases reading.readLine number line <;> simp [Except.map]

/-! ## Documents that are refused -/

/-- The identifiers of node lines, the latest first. -/
def identifiersBelow (above : List (List Char)) : List (List Char) :=
  (nodeLines above).reverse.map (·.identifier)

lemma Reading.After.map_identifiers {known : Registry} {above : List (List Char)}
    {reading : Reading} (h : reading.After known above) :
    reading.identifiers.map (·.1) = identifiersBelow above := by
  have hsame : List.Forall₂ Eq (identifiersBelow above) (reading.identifiers.map (·.1)) :=
    List.forall₂_map_left_iff.2 (List.forall₂_map_right_iff.2
      (h.identifiers.imp fun _ _ hentry => hentry.1.symm))
  rw [List.forall₂_eq_eq_eq] at hsame
  exact hsame.symm

namespace Document

variable {path : String} {number : ℕ} {reading : Reading} {known : Registry}
  {above texts : List (List Char)} {rest below : Lines} {fault : DocumentFault} {g : CallGraph}

/-- **Why a document is refused below some lines**: the next line is refused, or it is no text. -/
inductive RefusedBelow (path : String) (above : List (List Char)) : Lines → DocumentFault → Prop
  | line {line : List Char} {rest : Lines} {cause : LineFault}
      (hline : Refused (identifiersBelow above) line cause) :
      RefusedBelow path above (some line :: rest) (.line path (above.length + 1) cause)
  | notText {rest : Lines} : RefusedBelow path above (none :: rest) (.file path .notText)

/-- **Reading in two parts**: lines that are accepted, and what stands below them. -/
lemma exists_reading_of_ok (hsound : reading.Sound) (h : reading.After known above)
    (hok : (readFrom path number reading (texts.map some)).result = .ok g) :
    ∃ next : Reading, next.Sound ∧ next.After known (above ++ texts) ∧
      next.registry = (readFrom path number reading (texts.map some)).registry ∧
      ∀ below, readFrom path number reading (texts.map some ++ below)
        = readFrom path (number + texts.length) next below := by
  induction texts generalizing number reading above with
  | nil => exact ⟨reading, hsound, by rwa [List.append_nil], rfl, fun _ => rfl⟩
  | cons line texts ih =>
    rw [List.map_cons, readFrom] at hok
    cases hline : reading.readLine number line with
    | error cause =>
      rw [hline] at hok
      cases hok
    | ok middle =>
      rw [hline] at hok
      obtain ⟨statement, -, happly⟩ := Reading.readLine_eq_ok_iff.1 hline
      obtain ⟨next, hnext, hafter, hregistry, hbelow⟩ :=
        ih (hsound.apply happly).1 (h.readLine hsound hline) hok
      refine ⟨next, hnext, by simpa using hafter, ?_, fun below => ?_⟩
      · rw [List.map_cons, readFrom, hline]
        exact hregistry
      · rw [List.map_cons, List.cons_append, readFrom, hline, List.length_cons,
          Nat.add_comm texts.length 1, ← Nat.add_assoc]
        exact hbelow below

/-- The next line is where reading stops. -/
lemma RefusedBelow.readFrom_eq (hrefused : RefusedBelow path above below fault)
    (hsound : reading.Sound) (h : reading.After known above) :
    readFrom path (above.length + 1) reading below = finish reading (.error fault) := by
  cases hrefused with
  | line hline =>
    rw [← h.map_identifiers] at hline
    rw [readFrom, hsound.readLine_eq_error_iff.2 hline]
  | notText => rw [readFrom]

/-- **A document that is refused has a first line that is**, and the lines above it are accepted. -/
lemma exists_above_of_error (hsound : reading.Sound) (h : reading.After known above)
    (herror : (readFrom path (above.length + 1) reading rest).result = .error fault) :
    ∃ texts below, rest = texts.map some ++ below ∧
      (∃ g, (readFrom path (above.length + 1) reading (texts.map some)).result = .ok g) ∧
      RefusedBelow path (above ++ texts) below fault := by
  -- a line that is accepted joins those above, so the count of lines stays theirs
  induction rest generalizing reading above with
  | nil => cases herror
  | cons first rest ih =>
    cases first with
    | none =>
      obtain rfl := Except.error.inj herror
      exact ⟨[], none :: rest, rfl, ⟨_, rfl⟩, .notText⟩
    | some line =>
      cases hline : reading.readLine (above.length + 1) line with
      | error cause =>
        rw [readFrom, hline] at herror
        obtain rfl := Except.error.inj herror
        rw [hsound.readLine_eq_error_iff, h.map_identifiers] at hline
        refine ⟨[], some line :: rest, rfl, ⟨_, rfl⟩, ?_⟩
        rw [List.append_nil]
        exact .line hline
      | ok next =>
        rw [readFrom, hline] at herror
        have hnumber : (above ++ [line]).length + 1 = above.length + 1 + 1 := by simp
        obtain ⟨statement, -, happly⟩ := Reading.readLine_eq_ok_iff.1 hline
        obtain ⟨texts, below, rfl, ⟨g, hok⟩, hrefused⟩ := ih (hsound.apply happly).1
          (h.readLine hsound hline) (by rw [hnumber]; exact herror)
        refine ⟨line :: texts, below, rfl, ⟨g, ?_⟩, by simpa using hrefused⟩
        rw [List.map_cons, readFrom, hline]
        rwa [hnumber] at hok

/-! ### Cutting a document at a line -/

section Cut

variable {α : Type} [DecidableEq α]

/-- The lines of a sequence of elements, of which some may be no text.  `ofText` has the lines of its
characters and `ofBytes` those of its bytes. -/
def linesOf (ends : Text.LineEnd α) (decode : List α → Option (List Char)) (document : List α) :
    Lines :=
  (Text.lines ends document).map decode

/-- **A document that is refused behind a part of it**: the part is accepted by itself, and the first
line behind it is refused. -/
structure RefusedBehind (path : String) (known : Registry) (ends : Text.LineEnd α)
    (decode : List α → Option (List Char)) (document before : List α) (above : List (List Char))
    (fault : DocumentFault) : Prop where
  lines_eq : linesOf ends decode before = above.map some
  accepted : ∃ g, (read path known (linesOf ends decode before)).result = .ok g
  cut : ∃ after, document = before ++ after ∧
    linesOf ends decode document = linesOf ends decode before ++ linesOf ends decode after ∧
    RefusedBelow path above (linesOf ends decode after) fault

/-- What a refused document comes to. -/
lemma RefusedBehind.exists_reading {ends : Text.LineEnd α} {decode : List α → Option (List Char)}
    {document before : List α}
    (h : RefusedBehind path known ends decode document before above fault) :
    ∃ reading : Reading, reading.After known above ∧
      reading.registry = (read path known (linesOf ends decode before)).registry ∧
      read path known (linesOf ends decode document) = finish reading (.error fault) := by
  obtain ⟨g, hok⟩ := h.accepted
  obtain ⟨after, -, hlines, hrefused⟩ := h.cut
  rw [h.lines_eq, read] at hok
  obtain ⟨reading, hsound, hafter, hregistry, hbelow⟩ :=
    exists_reading_of_ok (Reading.sound_start known) (Reading.after_start known) hok
  rw [List.nil_append] at hafter
  refine ⟨reading, hafter, by rw [hregistry, h.lines_eq, read], ?_⟩
  rw [read, hlines, h.lines_eq, hbelow, Nat.add_comm 1]
  exact hrefused.readFrom_eq hsound hafter

/-- **A document is refused at its first line that is**, where lines are counted from one and all of
them count.  It is refused if and only if some part of it in front of a line is accepted by itself and
that line is refused where the identifiers of that part are known, or is no text.  The names that are
known afterwards are those that this part leaves: the names that were known before, under their ids,
and behind them the new names of the part. -/
theorem read_eq_error_iff (path : String) (known : Registry) (ends : Text.LineEnd α)
    (decode : List α → Option (List Char)) (document : List α) :
    (∀ fault, (read path known (linesOf ends decode document)).result = .error fault ↔
        ∃ before above, RefusedBehind path known ends decode document before above fault) ∧
      ∀ fault before above, RefusedBehind path known ends decode document before above fault →
        (read path known (linesOf ends decode document)).registry
            = (read path known (linesOf ends decode before)).registry ∧
          (read path known (linesOf ends decode document)).registry.names
            = known.names ++ (distinctNames above).filter (· ∉ known.names) ∧
          ∀ id name, known.name id = .ok name →
            (read path known (linesOf ends decode document)).registry.name id = .ok name := by
  refine ⟨fun fault => ⟨fun herror => ?_, ?_⟩, fun fault before above h => ?_⟩
  · obtain ⟨above, below, hlines, ⟨g, hok⟩, hrefused⟩ :=
      exists_above_of_error (Reading.sound_start known) (Reading.after_start known) herror
    obtain ⟨before, after, hdocument, hbefore, hafter⟩ :=
      Text.exists_cut_lines ends above.length document
    have habove : linesOf ends decode before = above.map some := by
      rw [linesOf, hbefore, List.map_take, ← linesOf, hlines]
      exact List.take_left' (List.length_map _)
    have hbelow : linesOf ends decode after = below := by
      rw [linesOf, hafter, List.map_drop, ← linesOf, hlines]
      exact List.drop_left' (List.length_map _)
    exact ⟨before, above, habove, ⟨g, by rw [habove]; exact hok⟩, after, hdocument,
      by rw [habove, hbelow, hlines], by rwa [hbelow]⟩
  · rintro ⟨before, above, h⟩
    obtain ⟨reading, -, -, hread⟩ := h.exists_reading
    rw [hread]
    rfl
  · obtain ⟨reading, hafter, hregistry, hread⟩ := h.exists_reading
    rw [hread]
    refine ⟨hregistry, hafter.names, fun id name hname => ?_⟩
    have hextends : known.Extends reading.registry := ⟨_, hafter.names.symm⟩
    exact hextends.keeps_name hname

end Cut

/-- A document whose last line is refused for its time, behind a line that does not matter and a
function. -/
def untimed : String :=
  "digraph\r\nN1 [label=\"1s %\" tooltip=\"a\"]\nN2 [label=\"1x %\" tooltip=\"b\"]"

/-- The function of the line that is refused is not known afterwards. -/
theorem read_eq_error_iff_untimed :
    (∃ before above, RefusedBehind inMemory .empty .characters some untimed.toList before above
        (.line inMemory 3 (.functionTime "b" .leaf "1x" (.unknownUnit "x" "1x")))) ∧
      (read inMemory .empty (ofText untimed)).registry.names = ["a"] := by
  have hread : (match (read inMemory .empty (ofText untimed)).result with
      | .error fault => some fault
      | .ok _ => none)
        = some (.line inMemory 3 (.functionTime "b" .leaf "1x" (.unknownUnit "x" "1x"))) ∧
      (read inMemory .empty (ofText untimed)).registry.names = ["a"] := by
    decide +kernel
  refine ⟨((read_eq_error_iff inMemory .empty .characters some untimed.toList).1 _).1 ?_, hread.2⟩
  have hfault := hread.1
  split at hfault
  · next fault hresult => exact hresult.trans (congrArg _ (Option.some.inj hfault))
  · cases hfault

end Document

end BenchCover.Dot
