import BenchCover.Dot.Statement
import BenchCover.Proofs.Text.Blank
import BenchCover.Proofs.Text.Pieces

/-!
# What kind of statement a line is

A line that starts with `N` is cut at its first bracket, and what stands in front of it and behind
it decides what the line says: `Statement.ofLine_of_cut`.  The type arguments that are taken out
before that do not reach over other characters: `Statement.withoutTypeArguments_append_cons`.

The words of a label are looked at from the back, where the word `of` stands in front of the total
time (`Times.ofLabel_of_reverse`) or does not (`Times.ofLabel_of_reverse_leaf`).
-/

namespace BenchCover.Dot

/-- A chain of readings succeeds if each of them does. -/
lemma bind_eq_ok_iff {ε α β : Type} {x : Except ε α} {f : α → Except ε β} {b : β} :
    x.bind f = .ok b ↔ ∃ a, x = .ok a ∧ f a = .ok b := by
  cases x with
  | error fault =>
    constructor
    · intro h
      cases h
    · rintro ⟨_, ⟨⟩, _⟩
  | ok a =>
    constructor
    · exact fun h => ⟨a, rfl, h⟩
    · rintro ⟨_, ⟨⟩, h⟩
      exact h

namespace Statement

variable {line head list identifier text : List Char} {statement : Statement} {c : Char}

/-- Type arguments are taken out on either side of a character that they do not have. -/
lemma withoutTypeArguments_append_cons (hc : c ∉ ['[', '.', '\u2026', ']'])
    (before after : List Char) : withoutTypeArguments (before ++ c :: after)
      = withoutTypeArguments before ++ c :: withoutTypeArguments after := by
  simp only [List.mem_cons, List.not_mem_nil, or_false, not_or] at hc
  obtain ⟨hopen, hpoint, hdots, hclose⟩ := hc
  rw [withoutTypeArguments, Text.replace_append_cons (by decide) (by simp [hopen, hdots, hclose]),
    Text.replace_append_cons (by decide) (by simp [hopen, hpoint, hclose])]
  rfl

lemma withoutTypeArguments_of_notMem (htext : '[' ∉ text ∨ ']' ∉ text) :
    withoutTypeArguments text = text := by
  rcases htext with htext | htext <;>
    rw [withoutTypeArguments, Text.replace_of_notMem (by decide) htext,
      Text.replace_of_notMem (by decide) htext]

lemma mem_of_mem_withoutTypeArguments (hc : c ∈ withoutTypeArguments text) : c ∈ text :=
  Text.mem_of_mem_erase (by decide) (Text.mem_of_mem_erase (by decide) hc)

lemma ofLine_of_head (hhead : line.head? ≠ some 'N') : ofLine line = .ok .nothing := by
  rw [ofLine, if_pos (by simpa using hhead)]

/-- **A line is read by what stands around its first bracket.** -/
lemma ofLine_of_cut (hhead : line.head? = some 'N')
    (hcut : Text.cutFirst '[' (withoutTypeArguments line) = some (head, list)) :
    ofLine line =
      if Text.contains arrow (Text.trim head) then ofEdge (Text.trim head) (Text.trim list)
      else if !Text.contains "tooltip".toList (Text.trim list) then .ok .untipped
      else ofNode (Text.trim head) (Text.trim list) := by
  simp only [ofLine, hhead, hcut, bne_self_eq_false, Bool.false_eq_true, if_false]

/-- The name in a tooltip. -/
def nameOf (tooltip : List Char) : List Char :=
  Text.trim (tooltip.takeWhile (· != ' '))

lemma required_eq_ok_iff {name : String} {value : List Char} :
    required name list = .ok value ↔ attribute? name list = some value := by
  rw [required]
  cases attribute? name list with
  | none => simp
  | some found => simp

/-- **What a node line tells**: the name in its tooltip and the times in its label. -/
lemma ofNode_eq_ok_iff : ofNode identifier list = .ok statement ↔
    ∃ tooltip label times, attribute? "tooltip" list = some tooltip ∧ nameOf tooltip ≠ [] ∧
      attribute? "label" list = some label ∧
      Times.ofLabel (String.ofList (nameOf tooltip)) label = .ok times ∧
      statement = .node identifier (String.ofList (nameOf tooltip)) times := by
  have hread : ofNode identifier list = (required "tooltip" list).bind fun tooltip =>
      if (nameOf tooltip).isEmpty then .error .emptyName
      else (required "label" list).bind fun label =>
        (Times.ofLabel (String.ofList (nameOf tooltip)) label).bind fun times =>
          .ok (.node identifier (String.ofList (nameOf tooltip)) times) := rfl
  rw [hread, bind_eq_ok_iff]
  constructor
  · rintro ⟨tooltip, htooltip, hrest⟩
    split_ifs at hrest with hempty
    obtain ⟨label, hlabel, hrest⟩ := bind_eq_ok_iff.1 hrest
    obtain ⟨times, htimes, hnode⟩ := bind_eq_ok_iff.1 hrest
    exact ⟨tooltip, label, times, required_eq_ok_iff.1 htooltip, by simpa using hempty,
      required_eq_ok_iff.1 hlabel, htimes, (Except.ok.inj hnode).symm⟩
  · rintro ⟨tooltip, label, times, htooltip, hne, hlabel, htimes, rfl⟩
    refine ⟨tooltip, required_eq_ok_iff.2 htooltip, ?_⟩
    rw [if_neg (by simpa using hne)]
    exact bind_eq_ok_iff.2 ⟨label, required_eq_ok_iff.2 hlabel,
      bind_eq_ok_iff.2 ⟨times, htimes, rfl⟩⟩

lemma exists_of_ofEdge (hok : ofEdge head list = .ok statement) :
    ∃ caller callee time, statement = .edge caller callee time := by
  rw [ofEdge] at hok
  split at hok
  · obtain rfl := Except.ok.inj hok
    exact ⟨_, _, _, rfl⟩
  · cases hok

/-- A line that is not refused is cut at a bracket, or it does not start with `N`. -/
lemma exists_cut_of_ofLine (hhead : line.head? = some 'N') (hok : ofLine line = .ok statement) :
    ∃ head list, Text.cutFirst '[' (withoutTypeArguments line) = some (head, list) := by
  cases hcut : Text.cutFirst '[' (withoutTypeArguments line) with
  | none => simp [ofLine, hhead, hcut] at hok
  | some parts => exact ⟨parts.1, parts.2, rfl⟩

end Statement

/-! ### Times in a label -/

/-- A word is taken for the time of the function itself, unless it starts with a bracket. -/
lemma selfWord?_cons (word : List Char) (earlier : List (List Char)) :
    selfWord? (word :: earlier) = if word.head? = some '(' then earlier.head? else some word := by
  cases word with
  | nil => rfl
  | cons first rest =>
    by_cases hfirst : first = '('
    · subst hfirst
      rfl
    · rw [selfWord?, if_neg (by simpa using hfirst)]
      · rfl
      · simp [hfirst]

/-- **A label with the word `of`** in front of the total time is read from the back. -/
lemma Times.ofLabel_of_reverse {function : String} {label self total last : List Char}
    {earlier : List (List Char)}
    (hwords : (labelWords label).reverse = last :: total :: ['o', 'f'] :: self :: earlier) :
    Times.ofLabel function label = (readTime function .total total).bind fun totalTime =>
      (selfWord? (self :: earlier)).elim (.error (.noTimes function (String.ofList label)))
        fun self => (readTime function .self self).bind fun selfTime =>
          .ok (Times.mk selfTime totalTime) := by
  rw [Times.ofLabel, hwords]
  show (readTime function .total total).bind _ = _
  cases selfWord? (self :: earlier) <;> rfl

/-- **Any other label** has one time, in front of its last word. -/
lemma Times.ofLabel_of_reverse_leaf {function : String} {label word last : List Char}
    {earlier : List (List Char)} (hwords : (labelWords label).reverse = last :: word :: earlier)
    (hof : ∀ self before, earlier ≠ ['o', 'f'] :: self :: before) :
    Times.ofLabel function label
      = (readTime function .leaf word).map fun time => ⟨time, time⟩ := by
  rw [Times.ofLabel, hwords]
  split
  · next _ _ self before hsame =>
    exact absurd (List.cons.inj (List.cons.inj hsame).2).2 (hof self before)
  · next _ other _ _ hsame =>
    obtain rfl : word = other := (List.cons.inj (List.cons.inj hsame).2).1
    rfl
  · next hnone => exact absurd rfl (hnone _ _ _)

lemma Times.exists_reverse_of_ofLabel {function : String} {label : List Char} {times : Times}
    (hok : Times.ofLabel function label = .ok times) :
    ∃ last word earlier, (labelWords label).reverse = last :: word :: earlier := by
  rw [Times.ofLabel] at hok
  split at hok
  · next hwords => exact ⟨_, _, _, hwords⟩
  · next hwords => exact ⟨_, _, _, hwords⟩
  · cases hok

end BenchCover.Dot
