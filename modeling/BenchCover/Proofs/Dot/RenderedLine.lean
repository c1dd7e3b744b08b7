import BenchCover.Proofs.Dot.Attribute
import BenchCover.Proofs.Dot.Statement
import BenchCover.Proofs.Number.Literal
import BenchCover.Proofs.Profile.Duration
import Mathlib.Tactic.FinCases

/-!
# Lines that were rendered

A function and a call are rendered as a line each, in the shape that profilers use: the name of a
function is in the tooltip of its node line, and the times stand at the end of its label, behind a
caption that may be anything plain.

A rendered line is followed through each stage of reading: type arguments are taken out of the
caption only, the first bracket starts the attribute list, the attributes are found, and the words
at the end of the label are the times.  So it says what was rendered:
`RenderedFunction.ofLine_line` and `RenderedCall.ofLine_line`.
-/

namespace BenchCover.Dot

variable {n i j : ℕ} {c : Char} {text : List Char}

/-- **A function that is rendered**: its name, what its label says in front of its times, and the
texts of its times. -/
structure RenderedFunction where
  name : String
  caption : String
  selfText : String
  totalText : String
  times : Times
  name_ne_empty : name ≠ ""
  name_plain : ∀ c ∈ name.toList, Text.isBlank c = false ∧ c ∉ ['"', '\\', '[']
  caption_plain : ∀ c ∈ caption.toList, c ∉ ['"', '\\', '=', '\n']
  selfText_parse : Duration.parse selfText = .ok times.selfTime
  totalText_parse : Duration.parse totalText = .ok times.totalTime

/-- **A call that is rendered**, between two of `n` functions. -/
structure RenderedCall (n : ℕ) where
  caller : Fin n
  callee : Fin n
  timeText : String
  time : Duration
  timeText_parse : Duration.parse timeText = .ok time

namespace RenderedFunction

/-- The node line of the function at place `i`. -/
def line (i : ℕ) (f : RenderedFunction) : String :=
  s!"N{i} [label=\"{f.caption}\\n{f.selfText} (1%)\\nof {f.totalText} (2%)\"" ++
    s!" tooltip=\"{f.name} ({f.totalText})\"]"

/-- The function at place `i`, with the place as its id. -/
def toFunction (i : ℕ) (f : RenderedFunction) : Function where
  id := i
  name := f.name
  selfTime := f.times.selfTime
  totalTime := f.times.totalTime

end RenderedFunction

namespace RenderedCall

/-- The edge line of a call. -/
def line (call : RenderedCall n) : String :=
  s!"N{call.caller.val} -> N{call.callee.val} [label=\" {call.timeText}\"]"

def toCall (call : RenderedCall n) : Call where
  caller := call.caller.val
  callee := call.callee.val
  time := call.time

end RenderedCall

/-! ## Identifiers -/

/-- The identifier of the node at a place. -/
def identifier (i : ℕ) : List Char :=
  'N' :: Nat.toDigits 10 i

lemma identifier_inj (h : identifier i = identifier j) : i = j :=
  toDigits_inj (List.cons.inj h).2

lemma notMem_identifier (hN : c ≠ 'N') (hc : c.isDigit = false) (i : ℕ) : c ∉ identifier i := by
  intro hmem
  rcases List.mem_cons.1 hmem with hsame | hdigit
  · exact hN hsame
  · rw [isDigit_of_mem_toDigits hdigit] at hc
    cases hc

/-- The characters of durations are no blanks, and mean nothing in a line. -/
lemma plain_of_mem_characters :
    ∀ c ∈ Duration.characters, Text.isBlank c = false ∧ c ∉ ['"', '\\', '[', '='] := by
  simp [Duration.characters, Text.isBlank, Text.blankRanges]

lemma trim_identifier (i : ℕ) : Text.trim (identifier i) = identifier i := by
  refine Text.trim_of_forall fun c hc => ?_
  rcases List.mem_cons.1 hc with rfl | hdigit
  · decide
  · have hnumeric : Duration.isNumeric c = true :=
      Bool.or_eq_true_iff.2 (Or.inl (isDigit_of_mem_toDigits hdigit))
    exact (plain_of_mem_characters c (Duration.mem_characters_of_isNumeric hnumeric)).1

/-! ## Durations in a line -/

/-- **The text of a duration** has no blank and none of the characters that mean something in a
line. -/
lemma plain_of_parse {text : String} {duration : Duration}
    (hparse : Duration.parse text = .ok duration) : text.toList ≠ [] ∧
      ∀ c ∈ text.toList, Text.isBlank c = false ∧ c ∉ ['"', '\\', '[', '='] := by
  obtain ⟨hne, hcharacters⟩ := Duration.mem_characters_of_parse hparse
  exact ⟨hne, fun c hc => plain_of_mem_characters c (hcharacters c hc)⟩

lemma newline_notMem_of_parse {text : String} {duration : Duration}
    (hparse : Duration.parse text = .ok duration) : '\n' ∉ text.toList :=
  fun hmem => absurd ((plain_of_parse hparse).2 '\n' hmem).1 (by decide)

lemma split_of_parse {text : String} {duration : Duration}
    (hparse : Duration.parse text = .ok duration) : Text.split [' '] text.toList = [text.toList] :=
  Text.split_of_notMem fun hmem => absurd ((plain_of_parse hparse).2 ' ' hmem).1 (by decide)

lemma notMem_of_forall {p : Char → Prop} (htext : ∀ c ∈ text, p c) (hc : ¬ p c) : c ∉ text :=
  fun hmem => hc (htext c hmem)

/-! ## Words of a label -/

/-- **A line break ends the words in front of it**, and the words behind it follow. -/
lemma labelWords_append (htext : '\\' ∉ text) (rest : List Char) :
    labelWords (text ++ '\\' :: 'n' :: rest) = Text.split [' '] text ++ labelWords rest := by
  have hreplace : Text.replace lineBreak [' '] (text ++ (lineBreak ++ rest))
      = text ++ ([' '] ++ Text.replace lineBreak [' '] rest) :=
    Text.replace_append_of_notMem htext [' ']
  show Text.split [' '] (Text.replace lineBreak [' '] (text ++ (lineBreak ++ rest))) = _
  rw [hreplace, List.singleton_append, Text.split_append_cons, labelWords]

lemma labelWords_of_notMem (htext : '\\' ∉ text) : labelWords text = Text.split [' '] text := by
  rw [labelWords, Text.replace_of_notMem (by decide) htext]

/-! ## Attribute lists -/

def labelKey : List Char :=
  ['l', 'a', 'b', 'e', 'l', '=']

def tooltipKey : List Char :=
  ['t', 'o', 'o', 'l', 't', 'i', 'p', '=']

lemma labelKey_eq : "label".toList ++ ['='] = labelKey := by simp [labelKey]

lemma tooltipKey_eq : "tooltip".toList ++ ['='] = tooltipKey := by simp [tooltipKey]

/-- There are no blanks around an attribute list. -/
lemma trim_attributes (text : List Char) :
    Text.trim (labelKey ++ (text ++ [']'])) = labelKey ++ (text ++ [']']) := by
  refine Text.trim_eq_self (fun c hc => ?_) fun c hc => ?_
  · obtain rfl : 'l' = c := Option.some.inj hc
    decide
  · rw [← List.append_assoc, List.getLast?_concat] at hc
    obtain rfl := Option.some.inj hc
    decide

/-- Type arguments do not reach over a quote, so there are none where a line has brackets that open
only in front of one and brackets that close only behind it. -/
lemma withoutTypeArguments_quote {front back : List Char} (hfront : ']' ∉ front)
    (hback : '[' ∉ back) :
    Statement.withoutTypeArguments (front ++ '"' :: back) = front ++ '"' :: back := by
  rw [Statement.withoutTypeArguments_append_cons (by decide),
    Statement.withoutTypeArguments_of_notMem (Or.inr hfront),
    Statement.withoutTypeArguments_of_notMem (Or.inl hback)]

lemma getLast?_attributes (before text : List Char) :
    (before ++ '[' :: (labelKey ++ (text ++ [']']))).getLast? = some ']' := by
  rw [← List.append_assoc labelKey, ← List.cons_append, ← List.append_assoc, List.getLast?_concat]

/-! ## Nodes with a label and a tooltip -/

section Node

variable {label tooltip name line : List Char}

/-- The attribute list of a node. -/
def nodeAttributes (label tooltip : List Char) : List Char :=
  labelKey ++ '"' :: (label ++ '"' :: ' ' :: (tooltipKey ++ '"' :: (tooltip ++ ['"', ']'])))

lemma exists_nodeAttributes (label tooltip : List Char) :
    ∃ text, nodeAttributes label tooltip = labelKey ++ (text ++ [']']) :=
  ⟨'"' :: (label ++ '"' :: ' ' :: (tooltipKey ++ '"' :: (tooltip ++ ['"']))), by
    simp [nodeAttributes]⟩

/-- **The label is found** if it is quoted as a whole. -/
lemma attribute?_label (hlabel : ∀ rest, takeQuoted (label ++ '"' :: rest) = label) :
    attribute? "label" (nodeAttributes label tooltip) = some label := by
  rw [attribute?, labelKey_eq, nodeAttributes, afterKey_self rfl (by decide)]
  exact congrArg some (hlabel _)

/-- **The tooltip is found** if the label has no sign `=`, and is plain itself. -/
lemma attribute?_tooltip (hlabel : '=' ∉ label) (hquote : '"' ∉ tooltip)
    (hescape : '\\' ∉ tooltip) :
    attribute? "tooltip" (nodeAttributes label tooltip) = some tooltip := by
  have hlabel : '=' ∉ label ++ ['"'] := by simp [hlabel]
  have hsplit : nodeAttributes label tooltip = labelKey ++ '"' :: ((label ++ ['"']) ++
      ' ' :: (tooltipKey ++ '"' :: (tooltip ++ ['"', ']']))) := by
    simp [nodeAttributes]
  -- The key of the label has a sign `=` of its own, but no `t`.
  have hskip : ∀ rest, afterKey tooltipKey none (labelKey ++ '"' :: rest)
      = afterKey tooltipKey (some '"') rest :=
    afterKey_skip (c := 't') (by decide) (by decide) (by decide) none
  rw [attribute?, tooltipKey_eq, hsplit, hskip,
    afterKey_skip (c := '=') (by decide) hlabel (by decide), afterKey_self rfl (by decide)]
  refine congrArg some ?_
  show takeQuoted (tooltip ++ ['"', ']']) = tooltip
  rw [takeQuoted_append hquote hescape, takeQuoted_quote, List.append_nil]

/-- The name in a tooltip is its first word. -/
lemma nameOf_append_cons (hname : ∀ c ∈ name, Text.isBlank c = false) (rest : List Char) :
    Statement.nameOf (name ++ ' ' :: rest) = name := by
  have hword : ∀ c ∈ name, (c != ' ') = true := by
    intro c hc
    refine bne_iff_ne.2 ?_
    rintro rfl
    exact absurd (hname ' ' hc) (by decide)
  rw [Statement.nameOf, List.takeWhile_append_of_pos hword,
    List.takeWhile_cons_of_neg (by simp), List.append_nil]
  exact Text.trim_of_forall hname

/-- **A node line is read** by the name in its tooltip and the times in its label. -/
lemma ofLine_node (hhead : line.head? = some 'N')
    (hline : Statement.withoutTypeArguments line
      = (identifier i ++ [' ']) ++ '[' :: nodeAttributes label tooltip)
    (hlabel : attribute? "label" (nodeAttributes label tooltip) = some label)
    (htooltip : attribute? "tooltip" (nodeAttributes label tooltip) = some tooltip)
    (hname : Statement.nameOf tooltip ≠ []) :
    Statement.ofLine line = (Times.ofLabel (String.ofList (Statement.nameOf tooltip)) label).bind
      fun times => .ok (.node (identifier i) (String.ofList (Statement.nameOf tooltip)) times) := by
  have hcut : Text.cutFirst '[' (Statement.withoutTypeArguments line)
      = some (identifier i ++ [' '], nodeAttributes label tooltip) := by
    rw [hline]
    exact Text.cutFirst_append (by simp [notMem_identifier])
  have htrim : Text.trim (identifier i ++ [' ']) = identifier i :=
    (Text.trim_concat_blank (by decide) _).trans (trim_identifier i)
  have hlist : Text.trim (nodeAttributes label tooltip) = nodeAttributes label tooltip := by
    obtain ⟨text, htext⟩ := exists_nodeAttributes label tooltip
    rw [htext, trim_attributes]
  have harrow : ¬ Text.contains Statement.arrow (identifier i) = true := by
    intro hcontains
    exact notMem_identifier (c := '-') (by decide) (by decide) i
      ((Text.contains_iff.1 hcontains).subset List.mem_cons_self)
  have hcontains : Text.contains "tooltip".toList (nodeAttributes label tooltip) = true :=
    Text.contains_iff.2 ⟨labelKey ++ '"' :: (label ++ ['"', ' ']),
      '=' :: '"' :: (tooltip ++ ['"', ']']), by simp [nodeAttributes, tooltipKey]⟩
  have htip := Statement.required_eq_ok_iff.2 htooltip
  have hname : (Text.trim (tooltip.takeWhile (· != ' '))).isEmpty = false := by
    simpa [Statement.nameOf] using hname
  rw [Statement.ofLine_of_cut hhead hcut, htrim, hlist, if_neg harrow, hcontains,
    if_neg (by decide), Statement.ofNode, htip]
  show (if (Text.trim (tooltip.takeWhile (· != ' '))).isEmpty then _ else _) = _
  rw [hname, if_neg (by decide), Statement.required_eq_ok_iff.2 hlabel]
  rfl

end Node

/-! ## Node lines -/

namespace RenderedFunction

variable (f : RenderedFunction)

def selfPart : List Char :=
  f.selfText.toList ++ [' ', '(', '1', '%', ')']

def totalPart : List Char :=
  ['o', 'f'] ++ ' ' :: (f.totalText.toList ++ [' ', '(', '2', '%', ')'])

/-- The label, with any caption. -/
def label (caption : List Char) : List Char :=
  caption ++ '\\' :: 'n' :: (f.selfPart ++ '\\' :: 'n' :: f.totalPart)

def tooltip : List Char :=
  f.name.toList ++ ' ' :: '(' :: (f.totalText.toList ++ [')'])

/-- The attribute list, with any caption. -/
def attributes (caption : List Char) : List Char :=
  labelKey ++ '"' :: (f.label caption ++
    '"' :: ' ' :: (tooltipKey ++ '"' :: (f.tooltip ++ ['"', ']'])))

lemma toList_line (i : ℕ) : (f.line i).toList
    = (identifier i ++ [' ']) ++ '[' :: f.attributes f.caption.toList := by
  have htext : ∀ s : String, toString s = s := fun _ => rfl
  unfold line
  simp [identifier, attributes, label, selfPart, totalPart, tooltip, labelKey, tooltipKey,
    String.toList_append, htext]

variable {f} {caption : List Char}

lemma exists_attributes (f : RenderedFunction) (caption : List Char) :
    ∃ text, f.attributes caption = labelKey ++ (text ++ [']']) :=
  exists_nodeAttributes (f.label caption) f.tooltip

/-! ### Characters of a node line -/

lemma notMem_selfPart (hc : c ∈ ['"', '\\', '[', '=']) : c ∉ f.selfPart := by
  have hself : c ∉ f.selfText.toList := fun hmem =>
    ((plain_of_parse f.selfText_parse).2 c hmem).2 hc
  fin_cases hc <;> simp [selfPart, hself]

lemma notMem_totalPart (hc : c ∈ ['"', '\\', '[', '=']) : c ∉ f.totalPart := by
  have htotal : c ∉ f.totalText.toList := fun hmem =>
    ((plain_of_parse f.totalText_parse).2 c hmem).2 hc
  fin_cases hc <;> simp [totalPart, htotal]

lemma notMem_tooltip (hc : c ∈ ['"', '\\', '[']) : c ∉ f.tooltip := by
  have hname : c ∉ f.name.toList := fun hmem => (f.name_plain c hmem).2 hc
  have htotal : c ∉ f.totalText.toList := fun hmem =>
    ((plain_of_parse f.totalText_parse).2 c hmem).2 (List.mem_append_left ['='] hc)
  fin_cases hc <;> simp [tooltip, hname, htotal]

lemma newline_notMem_line : '\n' ∉ (f.line i).toList := by
  have hname : '\n' ∉ f.name.toList := fun hmem => absurd (f.name_plain _ hmem).1 (by decide)
  have hcaption : '\n' ∉ f.caption.toList := fun hmem => f.caption_plain _ hmem (by decide)
  have hself := newline_notMem_of_parse f.selfText_parse
  have htotal := newline_notMem_of_parse f.totalText_parse
  rw [toList_line]
  simp [attributes, label, selfPart, totalPart, tooltip, labelKey, tooltipKey, notMem_identifier,
    hname, hcaption, hself, htotal]

lemma head?_line : (f.line i).toList.head? = some 'N' := by
  rw [toList_line]
  rfl

lemma getLast?_line : (f.line i).toList.getLast? = some ']' := by
  obtain ⟨text, htext⟩ := f.exists_attributes f.caption.toList
  rw [toList_line, htext, getLast?_attributes]

/-! ### What stands in a node line -/

/-- Type arguments are taken out of the caption only. -/
lemma withoutTypeArguments_line : Statement.withoutTypeArguments (f.line i).toList
    = (identifier i ++ [' ']) ++
      '[' :: f.attributes (Statement.withoutTypeArguments f.caption.toList) := by
  -- Type arguments reach neither over the quote in front of the caption nor over the backslash
  -- behind it, and on the far side of each one of their brackets is missing.
  obtain ⟨front, back, hfront, hback, hsplit⟩ : ∃ front back, ']' ∉ front ∧ '[' ∉ back ∧
      ∀ caption, (identifier i ++ [' ']) ++ '[' :: f.attributes caption
        = front ++ '"' :: (caption ++ '\\' :: back) := by
    refine ⟨identifier i ++ ' ' :: '[' :: labelKey,
      'n' :: (f.selfPart ++ '\\' :: 'n' :: (f.totalPart ++
        '"' :: ' ' :: (tooltipKey ++ '"' :: (f.tooltip ++ ['"', ']'])))), ?_, ?_, fun caption => ?_⟩
    · simp [notMem_identifier, labelKey]
    · simp [notMem_selfPart, notMem_totalPart, notMem_tooltip, tooltipKey]
    · simp [attributes, label]
  rw [toList_line, hsplit, Statement.withoutTypeArguments_append_cons (by decide),
    Statement.withoutTypeArguments_append_cons (by decide),
    Statement.withoutTypeArguments_of_notMem (Or.inr hfront),
    Statement.withoutTypeArguments_of_notMem (Or.inl hback), hsplit]

/-- A quoted label ends at its quote. -/
lemma takeQuoted_label (hquote : '"' ∉ caption) (hescape : '\\' ∉ caption) (rest : List Char) :
    takeQuoted (f.label caption ++ '"' :: rest) = f.label caption := by
  simp only [label, List.append_assoc, List.cons_append]
  rw [takeQuoted_append hquote hescape, takeQuoted_escape,
    takeQuoted_append (notMem_selfPart (by simp)) (notMem_selfPart (by simp)), takeQuoted_escape,
    takeQuoted_append (notMem_totalPart (by simp)) (notMem_totalPart (by simp)), takeQuoted_quote,
    List.append_nil]

/-- **The attributes of a node line** are its label and its tooltip, as long as the caption is
plain. -/
lemma attribute?_attributes (hcaption : ∀ c ∈ caption, c ∉ ['"', '\\', '=']) :
    attribute? "label" (f.attributes caption) = some (f.label caption) ∧
      attribute? "tooltip" (f.attributes caption) = some f.tooltip := by
  have hlabel : '=' ∉ f.label caption := by
    have hcaption : '=' ∉ caption := notMem_of_forall hcaption (by simp)
    simp [label, notMem_selfPart, notMem_totalPart, hcaption]
  exact ⟨attribute?_label (takeQuoted_label (notMem_of_forall hcaption (by simp))
      (notMem_of_forall hcaption (by simp))),
    attribute?_tooltip hlabel (notMem_tooltip (by simp)) (notMem_tooltip (by simp))⟩

lemma nameOf_tooltip : Statement.nameOf f.tooltip = f.name.toList :=
  nameOf_append_cons (fun c hc => (f.name_plain c hc).1) _

/-! ### The times in the label -/

/-- **The words of a label** end in the times and their shares. -/
lemma labelWords_label (hcaption : '\\' ∉ caption) :
    labelWords (f.label caption) = Text.split [' '] caption ++
      [f.selfText.toList, ['(', '1', '%', ')'], ['o', 'f'], f.totalText.toList,
        ['(', '2', '%', ')']] := by
  have hself : Text.split [' '] f.selfPart = [f.selfText.toList, ['(', '1', '%', ')']] := by
    rw [selfPart, Text.split_append_cons, split_of_parse f.selfText_parse]
    rfl
  have htotal : Text.split [' '] f.totalPart
      = [['o', 'f'], f.totalText.toList, ['(', '2', '%', ')']] := by
    rw [totalPart, Text.split_append_cons, Text.split_append_cons, split_of_parse f.totalText_parse]
    rfl
  rw [label, labelWords_append hcaption, labelWords_append (notMem_selfPart (by decide)),
    labelWords_of_notMem (notMem_totalPart (by decide)), hself, htotal]
  rfl

/-- **The times in the label** are those of the function. -/
lemma ofLabel_label (hcaption : '\\' ∉ caption) (function : String) :
    Times.ofLabel function (f.label caption) = .ok f.times := by
  have hself : readTime function .self f.selfText.toList = .ok f.times.selfTime := by
    rw [readTime, String.ofList_toList, f.selfText_parse]
    rfl
  have htotal : readTime function .total f.totalText.toList = .ok f.times.totalTime := by
    rw [readTime, String.ofList_toList, f.totalText_parse]
    rfl
  rw [Times.ofLabel, labelWords_label hcaption, List.reverse_append]
  show ((readTime function .total f.totalText.toList).bind fun totalTime =>
    (readTime function .self f.selfText.toList).bind fun selfTime =>
      .ok (Times.mk selfTime totalTime)) = _
  rw [htotal, hself]
  rfl

/-- **A node line is read** as the node that was rendered. -/
theorem ofLine_line :
    Statement.ofLine (f.line i).toList = .ok (.node (identifier i) f.name f.times) := by
  set caption := Statement.withoutTypeArguments f.caption.toList
  have hcaption : ∀ c ∈ caption, c ∉ ['"', '\\', '='] := by
    intro c hc hspecial
    have hplain := f.caption_plain c (Statement.mem_of_mem_withoutTypeArguments hc)
    exact hplain (List.mem_append_left ['\n'] hspecial)
  obtain ⟨hlabel, htooltip⟩ := attribute?_attributes (f := f) hcaption
  have hname : Statement.nameOf f.tooltip ≠ [] := by
    simpa [nameOf_tooltip] using f.name_ne_empty
  rw [ofLine_node head?_line withoutTypeArguments_line hlabel htooltip hname,
    ofLabel_label (notMem_of_forall hcaption (by decide)), nameOf_tooltip, String.ofList_toList]
  rfl

end RenderedFunction

/-! ## Edge lines -/

namespace RenderedCall

variable {call : RenderedCall n}

/-- The identifiers of a call and the arrow between them. -/
def ends (call : RenderedCall n) : List Char :=
  (identifier call.caller ++ [' ']) ++ (Statement.arrow ++ ' ' :: identifier call.callee)

def attributes (call : RenderedCall n) : List Char :=
  labelKey ++ '"' :: ' ' :: (call.timeText.toList ++ ['"', ']'])

lemma toList_line (call : RenderedCall n) :
    call.line.toList = (call.ends ++ [' ']) ++ '[' :: call.attributes := by
  have htext : ∀ s : String, toString s = s := fun _ => rfl
  unfold line
  simp [ends, identifier, attributes, labelKey, Statement.arrow, String.toList_append, htext]

lemma exists_attributes (call : RenderedCall n) :
    ∃ text, call.attributes = labelKey ++ (text ++ [']']) :=
  ⟨'"' :: ' ' :: (call.timeText.toList ++ ['"']), by simp [attributes]⟩

lemma notMem_timeText (hc : c ∈ ['"', '\\', '[', '=']) : c ∉ call.timeText.toList :=
  fun hmem => ((plain_of_parse call.timeText_parse).2 c hmem).2 hc

lemma newline_notMem_line : '\n' ∉ call.line.toList := by
  have htime := newline_notMem_of_parse call.timeText_parse
  rw [toList_line]
  simp [ends, Statement.arrow, attributes, labelKey, notMem_identifier, htime]

lemma head?_line : call.line.toList.head? = some 'N' := by
  rw [toList_line]
  rfl

lemma getLast?_line : call.line.toList.getLast? = some ']' := by
  obtain ⟨text, htext⟩ := call.exists_attributes
  rw [toList_line, htext, getLast?_attributes]

lemma notMem_ends (hc : c ∈ ['[', ']']) : c ∉ call.ends := by
  fin_cases hc <;> simp [ends, Statement.arrow, notMem_identifier]

lemma withoutTypeArguments_line : Statement.withoutTypeArguments call.line.toList
    = call.line.toList := by
  obtain ⟨front, back, hfront, hback, hsplit⟩ : ∃ front back, ']' ∉ front ∧ '[' ∉ back ∧
      call.line.toList = front ++ '"' :: back := by
    refine ⟨call.ends ++ ' ' :: '[' :: labelKey, ' ' :: (call.timeText.toList ++ ['"', ']']),
      ?_, ?_, ?_⟩
    · simp [notMem_ends, labelKey]
    · simp [notMem_timeText]
    · rw [toList_line]
      simp [attributes]
  rw [hsplit, withoutTypeArguments_quote hfront hback]

lemma trim_ends : Text.trim (call.ends ++ [' ']) = call.ends := by
  refine (Text.trim_concat_blank (by decide) _).trans
    (Text.trim_eq_self (fun c hc => ?_) fun c hc => ?_)
  · obtain rfl : 'N' = c := Option.some.inj hc
    decide
  · have hends : call.ends = (identifier call.caller ++ ' ' :: (Statement.arrow ++ [' ']))
        ++ identifier call.callee := by
      simp [ends]
    have hne : identifier call.callee ≠ [] := List.cons_ne_nil _ _
    rw [hends, List.getLast?_append_of_ne_nil _ hne, ← trim_identifier] at hc
    exact Text.getLast?_trim hc

/-- **The arrow splits the identifiers** of a call. -/
lemma split_ends : (Text.split Statement.arrow call.ends).map Text.trim
    = [identifier call.caller, identifier call.callee] := by
  have hcaller : '-' ∉ identifier call.caller ++ [' '] := by simp [notMem_identifier]
  have hcallee : '-' ∉ ' ' :: identifier call.callee := by simp [notMem_identifier]
  have hsplit : Text.split Statement.arrow call.ends = (identifier call.caller ++ [' ']) ::
      Text.split Statement.arrow (' ' :: identifier call.callee) :=
    Text.split_append_of_notMem hcaller
  have hrest : Text.split Statement.arrow (' ' :: identifier call.callee)
      = [' ' :: identifier call.callee] :=
    Text.split_of_notMem hcallee
  rw [hsplit, hrest, List.map_cons, List.map_singleton, Text.trim_cons_blank (by decide),
    Text.trim_concat_blank (by decide), trim_identifier, trim_identifier]

lemma callTime_timeText : callTime (' ' :: call.timeText.toList) = .ok call.time := by
  have hplain : ∀ c ∈ call.timeText.toList, Text.isBlank c = false := fun c hc =>
    ((plain_of_parse call.timeText_parse).2 c hc).1
  have hwords : labelWords call.timeText.toList = [call.timeText.toList] := by
    rw [labelWords_of_notMem (notMem_timeText (by decide)), split_of_parse call.timeText_parse]
  rw [callTime, Text.trim_cons_blank (by decide), Text.trim_of_forall hplain, hwords]
  show (Duration.parse (String.ofList call.timeText.toList)).mapError _ = _
  rw [String.ofList_toList, call.timeText_parse]
  rfl

lemma attribute?_attributes :
    attribute? "label" call.attributes = some (' ' :: call.timeText.toList) := by
  rw [attribute?, labelKey_eq, attributes, afterKey_self rfl (by decide)]
  refine congrArg some ?_
  show takeQuoted ((' ' :: call.timeText.toList) ++ ['"', ']']) = _
  rw [takeQuoted_append (by simp [notMem_timeText]) (by simp [notMem_timeText]), takeQuoted_quote,
    List.append_nil]

/-- **An edge line is read** as the call that was rendered. -/
theorem ofLine_line : Statement.ofLine call.line.toList
    = .ok (.edge (identifier call.caller) (identifier call.callee) (.ok call.time)) := by
  have hcut : Text.cutFirst '[' (Statement.withoutTypeArguments call.line.toList)
      = some (call.ends ++ [' '], call.attributes) := by
    rw [withoutTypeArguments_line, toList_line]
    exact Text.cutFirst_append (by simp [notMem_ends])
  have harrow : Text.contains Statement.arrow call.ends = true :=
    Text.contains_iff.2 ⟨identifier call.caller ++ [' '], ' ' :: identifier call.callee,
      List.append_assoc _ _ _⟩
  have hlist : Text.trim call.attributes = call.attributes := by
    obtain ⟨text, htext⟩ := call.exists_attributes
    rw [htext, trim_attributes]
  have hlabel : Statement.required "label" call.attributes = .ok (' ' :: call.timeText.toList) :=
    Statement.required_eq_ok_iff.2 attribute?_attributes
  rw [Statement.ofLine_of_cut head?_line hcut, trim_ends, hlist, if_pos harrow]
  simp only [Statement.ofEdge, split_ends, hlabel, Except.bind, callTime_timeText]

end RenderedCall

end BenchCover.Dot
