import BenchCover.Proofs.Dot.Attribute
import BenchCover.Proofs.Dot.Meaning

/-!
# The times of functions

A function should not spend more time in itself than in all.  Reading does not look at that: both
times are read off a label, each by itself.

**Labels.**  The words at the end of a label tell the times, in one of three layouts: `TellsTimes`.
That is what a label is read as (`Times.ofLabel_eq_ok_iff`).  A leaf has one time for both, and any
other label may overstate the own time of its function.

**Documents.**  The times of a function are those in the label of the first line that has its name
(`Means.exists_firstLabel`, and `Means.exists_function` the other way round).  So the own times of a
graph are at most the total times if and only if no such label overstates: `Document.read_times`.
-/

namespace BenchCover.Dot

variable {line label : List Char} {lines : List (List Char)}
  {function name : String} {times : Times} {node : NodeLine}

/-! ## Labels -/

/-- **The words of a label tell the times of a function.**  In front of the last word they are the
one time of a leaf, or the own time, with or without a share in brackets, the word `of` and the
total time. -/
inductive TellsTimes : List (List Char) → Times → Prop
  | leaf {front : List (List Char)} {word last : List Char} {time : Duration}
      (hof : ∀ earlier self, front ≠ earlier ++ [self, ['o', 'f']])
      (htime : Duration.parse (String.ofList word) = .ok time) :
      TellsTimes (front ++ [word, last]) ⟨time, time⟩
  | bare {front : List (List Char)} {self total last : List Char} {times : Times}
      (hself : self.head? ≠ some '(')
      (hselfTime : Duration.parse (String.ofList self) = .ok times.selfTime)
      (htotalTime : Duration.parse (String.ofList total) = .ok times.totalTime) :
      TellsTimes (front ++ [self, ['o', 'f'], total, last]) times
  | shared {front : List (List Char)} {self share total last : List Char} {times : Times}
      (hshare : share.head? = some '(')
      (hselfTime : Duration.parse (String.ofList self) = .ok times.selfTime)
      (htotalTime : Duration.parse (String.ofList total) = .ok times.totalTime) :
      TellsTimes (front ++ [self, share, ['o', 'f'], total, last]) times

lemma readTime_eq_ok_iff {which : TimeKind} {token : List Char} {time : Duration} :
    readTime function which token = .ok time ↔ Duration.parse (String.ofList token) = .ok time := by
  rw [readTime]
  cases Duration.parse (String.ofList token) <;> simp [Except.mapError]

/-- **A label with the word `of`** in front of the total time has an own time in front of that. -/
lemma Times.ofLabel_eq_ok_iff_of_reverse {self total last : List Char}
    {earlier : List (List Char)}
    (hwords : (labelWords label).reverse = last :: total :: ['o', 'f'] :: self :: earlier) :
    Times.ofLabel function label = .ok times ↔
      Duration.parse (String.ofList total) = .ok times.totalTime ∧
        ∃ word, selfWord? (self :: earlier) = some word ∧
          Duration.parse (String.ofList word) = .ok times.selfTime := by
  rw [ofLabel_of_reverse hwords, bind_eq_ok_iff]
  constructor
  · rintro ⟨totalTime, htotal, hrest⟩
    cases hword : selfWord? (self :: earlier) with
    | none =>
      rw [hword] at hrest
      cases hrest
    | some word =>
      rw [hword] at hrest
      obtain ⟨selfTime, hself, htimes⟩ := bind_eq_ok_iff.1 hrest
      obtain rfl := Except.ok.inj htimes
      exact ⟨readTime_eq_ok_iff.1 htotal, word, rfl, readTime_eq_ok_iff.1 hself⟩
  · rintro ⟨htotal, word, hword, hself⟩
    refine ⟨_, readTime_eq_ok_iff.2 htotal, ?_⟩
    rw [hword]
    exact bind_eq_ok_iff.2 ⟨_, readTime_eq_ok_iff.2 hself, rfl⟩

/-- **Any other label** has one time for both. -/
lemma Times.ofLabel_eq_ok_iff_of_reverse_leaf {word last : List Char}
    {earlier : List (List Char)} (hwords : (labelWords label).reverse = last :: word :: earlier)
    (hof : ∀ self before, earlier ≠ ['o', 'f'] :: self :: before) :
    Times.ofLabel function label = .ok times ↔
      ∃ time, Duration.parse (String.ofList word) = .ok time ∧ times = ⟨time, time⟩ := by
  rw [ofLabel_of_reverse_leaf hwords hof]
  constructor
  · intro hread
    cases htime : readTime function .leaf word with
    | error cause =>
      rw [htime] at hread
      cases hread
    | ok time =>
      rw [htime] at hread
      exact ⟨time, readTime_eq_ok_iff.1 htime, (Except.ok.inj hread).symm⟩
  · rintro ⟨time, htime, rfl⟩
    rw [readTime_eq_ok_iff.2 htime]
    rfl

/-- The words of a label that is read tell its times. -/
lemma Times.tells_of_ofLabel (hok : Times.ofLabel function label = .ok times) :
    TellsTimes (labelWords label) times := by
  obtain ⟨last, total, earlier, hreverse⟩ := exists_reverse_of_ofLabel hok
  have hwords : labelWords label = earlier.reverse ++ [total, last] := by
    rw [List.reverse_eq_iff.1 hreverse]
    simp
  rw [hwords]
  by_cases hof : ∃ self before, earlier = ['o', 'f'] :: self :: before
  · obtain ⟨self, before, rfl⟩ := hof
    obtain ⟨htotal, word, hword, hself⟩ := (ofLabel_eq_ok_iff_of_reverse hreverse).1 hok
    rw [selfWord?_cons] at hword
    split_ifs at hword with hshare
    · obtain ⟨rest, rfl⟩ := List.head?_eq_some_iff.1 hword
      have htells : TellsTimes (rest.reverse ++ [word, self, ['o', 'f'], total, last]) times :=
        .shared hshare hself htotal
      simpa using htells
    · obtain rfl := Option.some.inj hword
      have htells : TellsTimes (before.reverse ++ [self, ['o', 'f'], total, last]) times :=
        .bare hshare hself htotal
      simpa using htells
  · rw [not_exists] at hof
    obtain ⟨time, htime, rfl⟩ := (ofLabel_eq_ok_iff_of_reverse_leaf hreverse
      fun self before hsame => hof self ⟨before, hsame⟩).1 hok
    refine .leaf (fun front self hfront => hof self ⟨front.reverse, ?_⟩) htime
    rw [List.reverse_eq_iff.1 hfront]
    simp

/-- **A label is read as the times that its words tell.** -/
theorem Times.ofLabel_eq_ok_iff :
    Times.ofLabel function label = .ok times ↔ TellsTimes (labelWords label) times := by
  refine ⟨tells_of_ofLabel, fun h => ?_⟩
  generalize hwords : labelWords label = words at h
  cases h with
  | @leaf front word last time hof htime =>
    have hreverse : (labelWords label).reverse = last :: word :: front.reverse := by
      simp [hwords]
    refine (ofLabel_eq_ok_iff_of_reverse_leaf hreverse fun self before hfront => ?_).2
      ⟨time, htime, rfl⟩
    refine hof before.reverse self ?_
    rw [List.reverse_eq_iff.1 hfront]
    simp
  | @bare front self total last _ hself hselfTime htotalTime =>
    have hreverse : (labelWords label).reverse
        = last :: total :: ['o', 'f'] :: self :: front.reverse := by simp [hwords]
    refine (ofLabel_eq_ok_iff_of_reverse hreverse).2 ⟨htotalTime, self, ?_, hselfTime⟩
    rw [selfWord?_cons, if_neg hself]
  | @shared front self share total last _ hshare hselfTime htotalTime =>
    have hreverse : (labelWords label).reverse
        = last :: total :: ['o', 'f'] :: share :: self :: front.reverse := by simp [hwords]
    refine (ofLabel_eq_ok_iff_of_reverse hreverse).2 ⟨htotalTime, self, ?_, hselfTime⟩
    rw [selfWord?_cons, if_pos hshare, List.head?_cons]

/-- The own time that a label tells is more than the total time. -/
def Overstates (label : List Char) : Prop :=
  ∃ times, TellsTimes (labelWords label) times ∧
    times.totalTime.nanoseconds < times.selfTime.nanoseconds

/-- A label tells one pair of times. -/
lemma TellsTimes.overstates_iff (h : TellsTimes (labelWords label) times) :
    Overstates label ↔ times.totalTime.nanoseconds < times.selfTime.nanoseconds := by
  constructor
  · rintro ⟨others, hothers, hlt⟩
    have hsame : Times.ofLabel "" label = .ok others := Times.ofLabel_eq_ok_iff.2 hothers
    rw [Times.ofLabel_eq_ok_iff.2 h] at hsame
    rwa [Except.ok.inj hsame]
  · exact fun hlt => ⟨times, h, hlt⟩

/-! ## Lines -/

/-- **A line has a label for a name**: it looks like a node, with the name in its tooltip. -/
def HasLabel (line : List Char) (name : String) (label : List Char) : Prop :=
  line.head? = some 'N' ∧ ∃ head list tooltip,
    Text.cutFirst '[' (Statement.withoutTypeArguments line) = some (head, list) ∧
      ¬ Statement.arrow <:+: head ∧ attribute? "tooltip" (Text.trim list) = some tooltip ∧
      String.ofList (Statement.nameOf tooltip) = name ∧
      attribute? "label" (Text.trim list) = some label

/-- A node line has a label for its name, which tells its times. -/
lemma exists_label_of_nodeLine? (hnode : nodeLine? line = some node) :
    ∃ label, HasLabel line node.name label ∧ TellsTimes (labelWords label) node.times := by
  obtain ⟨identifier, hline⟩ : ∃ identifier,
      Statement.ofLine line = .ok (.node identifier node.name node.times) := by
    rw [nodeLine?] at hnode
    split at hnode
    · next identifier name times hline =>
      obtain rfl := Option.some.inj hnode
      exact ⟨identifier, hline⟩
    · cases hnode
  obtain ⟨hhead, head, list, hcut, harrow, hword⟩ := (look_of_ofLine hline).1.2 ⟨_, _, _, rfl⟩
  rw [Statement.ofLine_of_cut hhead hcut, if_neg (mt contains_arrow_trim_iff.1 harrow),
    contains_tooltip_trim_iff.2 hword, Bool.not_true, if_neg Bool.false_ne_true] at hline
  obtain ⟨tooltip, label, times, htooltip, -, hlabel, htimes, hsame⟩ :=
    Statement.ofNode_eq_ok_iff.1 hline
  obtain ⟨-, hname, rfl⟩ := Statement.node.inj hsame
  refine ⟨label, ⟨hhead, head, list, tooltip, hcut, harrow, htooltip, hname.symm, hlabel⟩, ?_⟩
  exact Times.ofLabel_eq_ok_iff.1 htimes

namespace HasLabel

lemma isNodeLine (h : HasLabel line name label) : IsNodeLine line := by
  obtain ⟨hhead, head, list, tooltip, hcut, harrow, htooltip, -⟩ := h
  have hword : Text.contains "tooltip".toList (Text.trim list) = true :=
    Text.contains_iff.2 (infix_of_attribute? htooltip)
  exact ⟨hhead, head, list, hcut, harrow, contains_tooltip_trim_iff.1 hword⟩

/-- A line has one label, for one name. -/
lemma unique {name' : String} {label' : List Char} (h : HasLabel line name label)
    (h' : HasLabel line name' label') : name = name' ∧ label = label' := by
  obtain ⟨-, head, list, tooltip, hcut, -, htooltip, rfl, hlabel⟩ := h
  obtain ⟨-, head', list', tooltip', hcut', -, htooltip', rfl, hlabel'⟩ := h'
  obtain ⟨rfl, rfl⟩ := Prod.mk.inj (Option.some.inj (hcut.symm.trans hcut'))
  obtain rfl := Option.some.inj (htooltip.symm.trans htooltip')
  exact ⟨rfl, Option.some.inj (hlabel.symm.trans hlabel')⟩

end HasLabel

/-! ## First lines -/

/-- **The first label for a name**: no line above has told a node of the name. -/
def FirstLabel (lines : List (List Char)) (name : String) (label : List Char) : Prop :=
  ∃ above line below, lines = above ++ line :: below ∧ name ∉ distinctNames above ∧
    HasLabel line name label

lemma firstTimes?_append_cons {above below : List (List Char)} (hnode : nodeLine? line = some node)
    (hnew : node.name ∉ distinctNames above) :
    firstTimes? (above ++ line :: below) node.name = some node.times := by
  have hnodes : nodeLines (above ++ line :: below)
      = nodeLines above ++ node :: nodeLines below := by
    rw [nodeLines, List.filterMap_append, List.filterMap_cons_some hnode]
    rfl
  have hnone : (nodeLines above).find? (·.name = node.name) = none :=
    Option.map_eq_none_iff.1 (firstTimes?_eq_none hnew)
  rw [firstTimes?, hnodes, List.find?_append, hnone, Option.none_or,
    List.find?_cons_of_pos (by simp), Option.map_some]

/-- **The first times of a name** are told by its first label. -/
lemma exists_firstLabel (hfirst : firstTimes? lines name = some times) :
    ∃ label, FirstLabel lines name label ∧ TellsTimes (labelWords label) times := by
  obtain ⟨node, hfind, rfl⟩ := Option.map_eq_some_iff.1 hfirst
  obtain ⟨hname, before, after, hnodes, hbefore⟩ := List.find?_eq_some_iff_append.1 hfind
  obtain rfl : node.name = name := by simpa using hname
  obtain ⟨above, rest, rfl, habove, hrest⟩ := List.filterMap_eq_append_iff.1 hnodes
  obtain ⟨silent, line, below, rfl, hsilent, hnode, -⟩ := List.filterMap_eq_cons_iff.1 hrest
  obtain ⟨label, hlabel, htells⟩ := exists_label_of_nodeLine? hnode
  refine ⟨label, ⟨above ++ silent, line, below, by simp, fun hmem => ?_, hlabel⟩, htells⟩
  obtain ⟨other, hother, hsame⟩ := mem_distinctNames_iff.1 hmem
  rw [nodeLines, List.filterMap_append, habove, List.filterMap_eq_nil_iff.2 hsilent,
    List.append_nil] at hother
  simpa [hsame] using hbefore other hother

/-- In lines that are read, the first label of a name tells its first times. -/
lemma FirstLabel.exists_firstTimes (hfirst : FirstLabel lines name label)
    (haccepted : Accepted lines) : name ∈ distinctNames lines ∧
      ∃ times, firstTimes? lines name = some times ∧ TellsTimes (labelWords label) times := by
  obtain ⟨above, line, below, rfl, hnew, hline⟩ := hfirst
  obtain ⟨node, hnode⟩ := (haccepted.node line (by simp)).1 hline.isNodeLine
  obtain ⟨label', hline', htells⟩ := exists_label_of_nodeLine? hnode
  obtain ⟨rfl, rfl⟩ := hline.unique hline'
  have hmem : node ∈ nodeLines (above ++ line :: below) :=
    List.mem_filterMap.2 ⟨line, by simp, hnode⟩
  exact ⟨mem_distinctNames_iff.2 ⟨node, hmem, rfl⟩, _, firstTimes?_append_cons hnode hnew, htells⟩

/-! ## Functions -/

namespace Means

variable {known registry : Registry} {g : CallGraph} {f : Function}

/-- **The times of a function** are told by the first label of its name. -/
lemma exists_firstLabel (h : Means known lines g registry) (hf : f ∈ g.functions) :
    ∃ label, FirstLabel lines f.name label ∧
      TellsTimes (labelWords label) ⟨f.selfTime, f.totalTime⟩ := by
  obtain ⟨name, -, hname⟩ := exists_mem_of_forall₂ h.functions hf
  obtain rfl := hname.name_eq
  exact Dot.exists_firstLabel hname.times_eq

/-- **A first label** tells the times of a function. -/
lemma exists_function (h : Means known lines g registry) (haccepted : Accepted lines)
    (hfirst : FirstLabel lines name label) :
    ∃ f ∈ g.functions, TellsTimes (labelWords label) ⟨f.selfTime, f.totalTime⟩ := by
  obtain ⟨hmem, times, htimes, htells⟩ := hfirst.exists_firstTimes haccepted
  obtain ⟨f, hf, hfunction⟩ := exists_mem_of_forall₂ h.functions.flip hmem
  obtain rfl := Option.some.inj (htimes.symm.trans hfunction.times_eq)
  exact ⟨f, hf, htells⟩

end Means

/-! ## Documents -/

namespace Document

/-- **The own time of a function is at most its total time**, unless the label that tells its times
overstates. -/
theorem read_times (path : String) (known : Registry) (lines : Lines) (g : CallGraph)
    (hok : (read path known lines).result = .ok g) :
    ∃ texts, lines = texts.map some ∧
      (∀ f ∈ g.functions, ∃ label, FirstLabel texts f.name label ∧
        TellsTimes (labelWords label) ⟨f.selfTime, f.totalTime⟩) ∧
      ((∀ f ∈ g.functions, f.selfTime.nanoseconds ≤ f.totalTime.nanoseconds) ↔
        ∀ name label, FirstLabel texts name label → ¬ Overstates label) := by
  obtain ⟨texts, rfl, haccepted, hmeans⟩ :=
    means_of_readFrom (Reading.sound_start known) (Reading.after_start known) hok
  rw [List.nil_append] at haccepted hmeans
  refine ⟨texts, rfl, fun f hf => hmeans.exists_firstLabel hf,
    fun hbound name label hfirst => ?_, fun hlabel f hf => ?_⟩
  · obtain ⟨f, hf, htells⟩ := hmeans.exists_function haccepted hfirst
    rw [htells.overstates_iff]
    exact Nat.not_lt.2 (hbound f hf)
  · obtain ⟨label, hfirst, htells⟩ := hmeans.exists_firstLabel hf
    exact Nat.not_lt.1 (mt htells.overstates_iff.2 (hlabel _ _ hfirst))

/-- A document with each layout of labels, whose last line overstates the own time of a function
that has been told of above. -/
def layouts : Lines :=
  ["N1 [label=\"1s (1%)\\nof 3s %\" tooltip=a]", "N2 [label=\"0 of 12s %\" tooltip=b]",
    "N3 [label=\"1s %\" tooltip=c]", "N4 [label=\"5s of 2s %\" tooltip=a]"].map
      fun line => some line.toList

theorem read_times_layouts : ∃ g, (read inMemory .empty layouts).result = .ok g ∧
    ∃ texts, layouts = texts.map some ∧
      (∀ f ∈ g.functions, f.selfTime.nanoseconds ≤ f.totalTime.nanoseconds) ∧
      ∀ name label, FirstLabel texts name label → ¬ Overstates label := by
  obtain ⟨g, hok, hfunctions⟩ : ∃ g, (read inMemory .empty layouts).result = .ok g ∧
      g.functions = [⟨0, "a", ⟨1000000000⟩, ⟨3000000000⟩⟩, ⟨1, "b", ⟨0⟩, ⟨12000000000⟩⟩,
        ⟨2, "c", ⟨1000000000⟩, ⟨1000000000⟩⟩] := ⟨_, rfl, rfl⟩
  have hbound : ∀ f ∈ g.functions, f.selfTime.nanoseconds ≤ f.totalTime.nanoseconds := by
    rw [hfunctions]
    decide
  obtain ⟨texts, hlines, -, hiff⟩ := read_times inMemory .empty layouts g hok
  exact ⟨g, hok, texts, hlines, hbound, hiff.1 hbound⟩

/-- **Own times may be more than total times**: nothing keeps a label from overstating. -/
theorem read_overstated :
    ∃ g, (read inMemory .empty
        [some "N1 [label=\"p\\nf\\n2s (100%)\\nof 1s (50%)\" tooltip=\"p.f (1s)\"]".toList]).result
          = .ok g ∧
      g.functions = [⟨0, "p.f", ⟨2000000000⟩, ⟨1000000000⟩⟩] ∧
      ¬ ∀ f ∈ g.functions, f.selfTime.nanoseconds ≤ f.totalTime.nanoseconds := by
  refine ⟨_, rfl, rfl, fun hbound => ?_⟩
  exact absurd (hbound _ List.mem_cons_self) (by decide)

end Document

end BenchCover.Dot
