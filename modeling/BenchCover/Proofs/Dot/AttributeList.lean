import BenchCover.Proofs.Dot.Attribute
import Mathlib.Data.Nat.Find
import Mathlib.Tactic.FinCases

/-!
# Attribute lists as they are written

A list of attributes is written with single spaces between them and a bracket behind the last one.
An attribute is written as its key, the sign `=` and its value, which may be in quotes.

**Values.**  A value ends where it was written to end: `Value.takeValue_written`.

**Mentions.**  A text mentions a name if the name and the sign `=` stand in it where a word can
start.  A look-up tells keys from values only by the characters in front of them.  So it passes over
an attribute with another key whose value does not mention the name (`Attribute.afterKey_written`),
but it stops inside a value that does (`Attribute.afterKey_of_mentioned`).

Hence the first attribute of a name is found, unless the value of one in front of it mentions the
name: `AttributeList.attribute?_written`.
-/

namespace BenchCover.Dot

/-! ## Lists of attributes -/

/-- **A word** can be the key of an attribute. -/
structure IsWord (text : List Char) : Prop where
  ne_nil : text ≠ []
  plain : ∀ c ∈ text, Text.isBlank c = false ∧ c ∉ [',', '[', ']', '=', '"']

/-- **Escaped text** can stand in quotes: a backslash escapes the character behind it, and every
quote is escaped. -/
inductive IsEscaped : List Char → Prop
  | nil : IsEscaped []
  | plain {c : Char} {text : List Char} (hquote : c ≠ '"') (hescape : c ≠ '\\')
      (htext : IsEscaped text) : IsEscaped (c :: text)
  | escape {c : Char} {text : List Char} (htext : IsEscaped text) : IsEscaped ('\\' :: c :: text)

/-- The value of an attribute. -/
inductive Value where
  | bare (text : List Char) (ne_nil : text ≠ []) (unquoted : text.head? ≠ some '"')
      (plain : ∀ c ∈ text, Text.isBlank c = false ∧ c ∉ [',', ']'])
  | quoted (text : List Char) (escaped : IsEscaped text)

namespace Value

/-- The text of a value, without the quotes around it. -/
def raw : Value → List Char
  | bare text _ _ _ => text
  | quoted text _ => text

/-- What stands on either side of the text of a value. -/
def quote : Value → List Char
  | bare _ _ _ _ => []
  | quoted _ _ => ['"']

def written (value : Value) : List Char :=
  value.quote ++ (value.raw ++ value.quote)

end Value

structure Attribute where
  key : String
  value : Value
  isWord_key : IsWord key.toList

def Attribute.written (a : Attribute) : List Char :=
  a.key.toList ++ '=' :: a.value.written

namespace AttributeList

/-- **The text of an attribute list**, with its closing bracket. -/
def written (attributes : List Attribute) : List Char :=
  Text.join [' '] (attributes.map Attribute.written) ++ [']']

/-- What stands behind an attribute that others follow. -/
def behind : List Attribute → List Char
  | [] => [']']
  | others => ' ' :: written others

end AttributeList

/-- **A text mentions a name** between two parts of it: the name and the sign `=` stand there,
behind a character at which a word can start. -/
structure MentionsBetween (name : String) (text before after : List Char) : Prop where
  text_eq : text = before ++ (name.toList ++ '=' :: after)
  before_ne_nil : before ≠ []
  startsWord : startsWord before.getLast? = true

def Mentions (name : String) (text : List Char) : Prop :=
  ∃ before after, MentionsBetween name text before after

/-- No other mention is further in front. -/
structure FirstMention (name : String) (text before after : List Char) : Prop extends
    MentionsBetween name text before after where
  first : ∀ before' after', MentionsBetween name text before' after' →
    before.length ≤ before'.length

variable {name : String} {key text front back rest : List Char} {previous : Option Char}
  {c d : Char} {value : Value} {a : Attribute} {before after attributes others : List Attribute}

/-! ## Values -/

lemma takeQuoted_of_isEscaped (htext : IsEscaped text) (rest : List Char) :
    takeQuoted (text ++ '"' :: rest) = text := by
  induction htext with
  | nil => rfl
  | @plain c text hquote hescape _ ih =>
    rw [List.cons_append, takeQuoted.eq_4, ih]
    · exact hquote
    · rintro _ _ rfl
      exact absurd rfl hescape
  | escape _ ih => rw [List.cons_append, List.cons_append, takeQuoted_escape, ih]

lemma isEscaped_of_forall (htext : ∀ c ∈ text, c ∉ ['"', '\\']) : IsEscaped text := by
  induction text with
  | nil => exact .nil
  | cons c rest ih =>
    obtain ⟨hc, hrest⟩ := List.forall_mem_cons.1 htext
    simp only [List.mem_cons, List.not_mem_nil, or_false, not_or] at hc
    exact .plain hc.1 hc.2 (ih hrest)

/-- **A value ends where it was written to end**, in front of a space or a closing bracket. -/
lemma Value.takeValue_written (value : Value) (hd : d ∈ [' ', ']']) (rest : List Char) :
    takeValue (value.written ++ d :: rest) = value.raw := by
  cases value with
  | quoted text escaped =>
    show takeQuoted ((text ++ ['"']) ++ d :: rest) = text
    rw [List.append_assoc, List.singleton_append, takeQuoted_of_isEscaped escaped]
  | bare text ne_nil unquoted plain =>
    have hplain : ∀ c ∈ text, (!(Text.isBlank c || c = ',' || c = ']')) = true := by
      intro c hc
      obtain ⟨hblank, hmem⟩ := plain c hc
      simp only [List.mem_cons, List.not_mem_nil, or_false, not_or] at hmem
      simp [hblank, hmem]
    have hstop : (d :: rest).takeWhile (fun c => !(Text.isBlank c || c = ',' || c = ']')) = [] := by
      refine List.takeWhile_cons_of_neg ?_
      fin_cases hd <;> decide
    have hbare : takeValue (text ++ d :: rest)
        = (text ++ d :: rest).takeWhile fun c => !(Text.isBlank c || c = ',' || c = ']') := by
      obtain ⟨first, others, rfl⟩ := List.exists_cons_of_ne_nil ne_nil
      rw [takeValue]
      rintro quoted hquoted
      exact unquoted (congrArg some (List.cons.inj hquoted).1)
    rw [show (bare text ne_nil unquoted plain).written = text by simp [written, raw, quote], hbare,
      List.takeWhile_append_of_pos hplain, hstop, List.append_nil, raw]

/-! ## Passing over -/

/-- **A key is looked for behind a text** in which it does not stand at the start of a word. -/
lemma afterKey_append (hnone : ∀ front back, text = front ++ back → back ≠ [] →
      startsWord (front.getLast?.or previous) = true → ¬ key <+: back ++ rest) :
    afterKey key previous (text ++ rest) = afterKey key (text.getLast?.or previous) rest := by
  induction text generalizing previous with
  | nil => rfl
  | cons c others ih =>
    have hlast : ∀ text : List Char,
        (c :: text).getLast?.or previous = text.getLast?.or (some c) := by
      intro text
      rw [List.getLast?_cons]
      cases text.getLast? <;> rfl
    have hhere : ¬ (startsWord previous && key.isPrefixOf (c :: (others ++ rest))) = true := by
      rw [Bool.and_eq_true, List.isPrefixOf_iff_prefix, not_and]
      exact hnone [] (c :: others) rfl (List.cons_ne_nil _ _)
    rw [List.cons_append, afterKey, if_neg hhere, hlast]
    refine ih fun front back hsplit hne hstart => ?_
    exact hnone (c :: front) back (congrArg (c :: ·) hsplit) hne ((hlast front).symm ▸ hstart)

/-- The key that a name is looked up by. -/
def keyOf (name : String) : List Char :=
  name.toList ++ ['=']

/-- **A name that can be told apart** in a list: it has neither the sign `=` nor a character that
ends a value. -/
def IsName (name : String) : Prop :=
  ∀ c ∈ ['=', '"', ' ', ']'], c ∉ name.toList

lemma keyOf_ne_nil (name : String) : keyOf name ≠ [] :=
  List.append_ne_nil_of_right_ne_nil _ (List.cons_ne_nil _ _)

lemma keyOf_append (name : String) (rest : List Char) :
    keyOf name ++ rest = name.toList ++ '=' :: rest := by
  rw [keyOf, List.append_assoc, List.singleton_append]

lemma IsName.notMem_keyOf (hname : IsName name) (hc : c ∈ ['"', ' ', ']']) : c ∉ keyOf name := by
  have hmem : c ∉ name.toList := hname c (List.mem_cons_of_mem _ hc)
  have hne : c ≠ '=' := by
    fin_cases hc <;> decide
  simp [keyOf, hmem, hne]

lemma IsName.not_keyOf_begins (hname : IsName name) (hd : d ∈ ['"', ' ', ']']) (rest : List Char) :
    ¬ keyOf name <+: d :: rest := by
  intro hbegins
  have hnil : keyOf name <+: [] :=
    Text.prefix_of_prefix_append_cons (hname.notMem_keyOf hd) hbegins
  exact keyOf_ne_nil name (List.prefix_nil.1 hnil)

lemma mentions_of_begins (htext : text = front ++ back) (hne : front ≠ [])
    (hstart : startsWord front.getLast? = true) (hkey : keyOf name <+: back) :
    Mentions name text := by
  obtain ⟨after, rfl⟩ := hkey
  exact ⟨front, after, by rw [htext, keyOf_append], hne, hstart⟩

/-- Two texts without the sign `=` are the same if one stands in front of a sign where the other
does. -/
lemma eq_of_keyOf_begins (hname : IsName name) (htext : '=' ∉ text)
    (hkey : keyOf name <+: text ++ '=' :: rest) : text = name.toList := by
  obtain ⟨after, hafter⟩ := hkey
  rw [keyOf_append] at hafter
  have hcut : Text.cutFirst '=' (name.toList ++ '=' :: after) = some (name.toList, after) :=
    Text.cutFirst_append (hname '=' List.mem_cons_self)
  rw [hafter, Text.cutFirst_append htext] at hcut
  exact (Prod.mk.inj (Option.some.inj hcut)).1

/-- No word starts behind a character of a key. -/
lemma IsWord.startsWord_eq (hword : IsWord text) (hc : c ∈ text) : startsWord (some c) = false := by
  obtain ⟨hblank, hmem⟩ := hword.plain c hc
  simp only [List.mem_cons, List.not_mem_nil, or_false, not_or] at hmem
  simp [startsWord, hblank, hmem]

namespace Attribute

/-- **Another key is passed over**: it is not the one that is looked for, and no word starts
in it. -/
lemma afterKey_key (hname : IsName name) (hkey : a.key ≠ name) (previous : Option Char)
    (rest : List Char) : afterKey (keyOf name) previous (a.key.toList ++ '=' :: rest)
      = afterKey (keyOf name) (some '=') rest := by
  have hequals : '=' ∉ a.key.toList := fun hmem => (a.isWord_key.plain '=' hmem).2 (by simp)
  have hsplit : a.key.toList ++ '=' :: rest = (a.key.toList ++ ['=']) ++ rest := by simp
  rw [hsplit, afterKey_append, List.getLast?_concat, Option.some_or]
  intro front back hsplit hne hstart hbegins
  rcases List.eq_nil_or_concat front with rfl | ⟨front, c, rfl⟩
  · obtain rfl : a.key.toList ++ ['='] = back := hsplit
    rw [List.append_assoc, List.singleton_append] at hbegins
    exact hkey (String.toList_inj.1 (eq_of_keyOf_begins hname hequals hbegins))
  · have hc : c ∈ a.key.toList := by
      have hfront : front.concat c <+: a.key.toList ++ ['='] := ⟨back, hsplit.symm⟩
      rcases List.prefix_concat_iff.1 hfront with hall | hfront
      · exact absurd (List.self_eq_append_right.1 (hall.trans hsplit)) hne
      · exact hfront.subset (by simp)
    rw [List.concat_eq_append, List.getLast?_concat, Option.some_or,
      a.isWord_key.startsWord_eq hc] at hstart
    cases hstart

end Attribute

/-! ### Values -/

namespace Value

/-- A word that starts in a value starts in its text. -/
lemma exists_split (hsplit : value.written = front ++ back) (hne : back ≠ [])
    (hstart : startsWord (front.getLast?.or (some '=')) = true) :
    ∃ front' back', front = value.quote ++ front' ∧ back = back' ++ value.quote ∧
      value.raw = front' ++ back' ∧ front' ≠ [] ∧ startsWord front'.getLast? = true := by
  have hfront : front ≠ [] := by
    rintro rfl
    exact absurd hstart (by decide)
  cases value with
  | bare text =>
    have hraw : text = front ++ back := by simpa [written, raw, quote] using hsplit
    refine ⟨front, back, rfl, (List.append_nil back).symm, hraw, hfront, ?_⟩
    rwa [List.getLast?_eq_some_getLast hfront] at hstart ⊢
  | quoted text =>
    obtain ⟨first, front, rfl⟩ := List.exists_cons_of_ne_nil hfront
    obtain ⟨rfl, hinside⟩ := List.cons.inj hsplit
    rcases List.eq_nil_or_concat back with rfl | ⟨back, last, rfl⟩
    · exact absurd rfl hne
    have hconcat : text ++ ['"'] = (front ++ back) ++ [last] := by
      simpa [raw, quote] using hinside
    obtain ⟨hraw, hlast⟩ := List.append_inj' hconcat rfl
    have hfront : front ≠ [] := by
      rintro rfl
      exact absurd hstart (by decide)
    refine ⟨front, back, rfl, ?_, hraw, hfront, ?_⟩
    · rw [List.concat_eq_append, ← hlast, quote]
    · rw [List.getLast?_cons, List.getLast?_eq_some_getLast hfront] at hstart
      rwa [List.getLast?_eq_some_getLast hfront]

/-- **A value that does not mention a name is passed over**, with the character behind it. -/
lemma afterKey_written (hname : IsName name) (hmention : ¬ Mentions name value.raw)
    (hd : d ∈ [' ', ']']) (rest : List Char) :
    afterKey (keyOf name) (some '=') (value.written ++ d :: rest)
      = afterKey (keyOf name) (some d) rest := by
  replace hd : d ∈ ['"', ' ', ']'] := List.mem_cons_of_mem _ hd
  have hquote : '"' ∉ keyOf name := hname.notMem_keyOf List.mem_cons_self
  rw [afterKey_append, afterKey_cons (hname.not_keyOf_begins hd rest)]
  intro front back hsplit hne hstart hbegins
  replace hbegins := Text.prefix_of_prefix_append_cons (hname.notMem_keyOf hd) hbegins
  obtain ⟨front, back, rfl, rfl, hraw, hfront, hstart⟩ := exists_split hsplit hne hstart
  refine hmention (mentions_of_begins hraw hfront hstart ?_)
  cases value with
  | bare => simpa [quote] using hbegins
  | quoted => exact Text.prefix_of_prefix_append_cons hquote hbegins

/-- A place for the key in front of a mention is an earlier mention. -/
lemma exists_earlier {earlier between : List Char}
    (hmention : MentionsBetween name value.raw front back)
    (hsplit : value.quote ++ front = earlier ++ between) (hne : between ≠ [])
    (hstart : startsWord (earlier.getLast?.or (some '=')) = true)
    (hbegins : keyOf name <+: between ++ (keyOf name ++ rest)) :
    ∃ before after, MentionsBetween name value.raw before after ∧ before.length < front.length := by
  have hwritten : value.written
      = earlier ++ (between ++ (keyOf name ++ (back ++ value.quote))) := by
    rw [← List.append_assoc, ← hsplit]
    simp [written, hmention.text_eq, keyOf]
  obtain ⟨before, later, rfl, hlater, hraw, hbefore, hstart⟩ :=
    exists_split hwritten (List.append_ne_nil_of_left_ne_nil hne _) hstart
  have hfront : front = before ++ between := by
    rw [List.append_assoc] at hsplit
    exact List.append_cancel_left hsplit
  have hends : later ++ value.quote = (between ++ keyOf name ++ back) ++ value.quote := by
    rw [← hlater]
    simp
  have hlater : later = between ++ keyOf name ++ back := List.append_cancel_right hends
  have hkey : keyOf name <+: between ++ keyOf name := by
    rw [← List.append_assoc] at hbegins
    exact List.prefix_of_prefix_length_le hbegins (List.prefix_append _ _) (by simp)
  obtain ⟨after, hafter⟩ := hkey
  refine ⟨before, after ++ back, ⟨?_, hbefore, hstart⟩, ?_⟩
  · rw [hraw, hlater, ← hafter]
    simp [keyOf]
  · rw [hfront, List.length_append]
    exact Nat.lt_add_of_pos_right (List.length_pos_iff.2 hne)

/-- **A value that mentions a name** is where the name is found, at the first place. -/
lemma afterKey_of_firstMention (hmention : FirstMention name value.raw front back)
    (rest : List Char) : afterKey (keyOf name) (some '=') (value.written ++ rest)
      = some (back ++ (value.quote ++ rest)) := by
  have hsplit : value.written ++ rest
      = (value.quote ++ front) ++ (keyOf name ++ (back ++ (value.quote ++ rest))) := by
    simp [written, hmention.text_eq, keyOf]
  have hlast : (value.quote ++ front).getLast? = front.getLast? :=
    List.getLast?_append_of_ne_nil _ hmention.before_ne_nil
  have hstart : startsWord ((value.quote ++ front).getLast?.or (some '=')) = true := by
    have hstart := hmention.startsWord
    rw [hlast]
    rwa [List.getLast?_eq_some_getLast hmention.before_ne_nil] at hstart ⊢
  rw [hsplit, afterKey_append, afterKey_self hstart (keyOf_ne_nil name)]
  -- The key does not stand further in front, where it would be an earlier mention.
  intro earlier between hsplit hne hstart hbegins
  obtain ⟨before, after, hearlier, hlt⟩ :=
    exists_earlier hmention.toMentionsBetween hsplit hne hstart hbegins
  exact absurd (hmention.first before after hearlier) (Nat.not_le.2 hlt)

end Value

lemma Mentions.subset (h : Mentions name text) : name.toList ⊆ text := by
  obtain ⟨before, after, rfl, -, -⟩ := h
  simp

lemma Mentions.exists_firstMention (h : Mentions name text) :
    ∃ before after, FirstMention name text before after := by
  classical
  have hlength : ∃ n before after, MentionsBetween name text before after ∧ before.length = n := by
    obtain ⟨before, after, hmention⟩ := h
    exact ⟨_, before, after, hmention, rfl⟩
  obtain ⟨before, after, hmention, hn⟩ := Nat.find_spec hlength
  refine ⟨before, after, hmention, fun before' after' hother => ?_⟩
  rw [hn]
  exact Nat.find_min' hlength ⟨before', after', hother, rfl⟩

/-! ## Looking up -/

namespace Attribute

lemma written_append (a : Attribute) (rest : List Char) :
    a.written ++ rest = a.key.toList ++ '=' :: (a.value.written ++ rest) := by
  rw [written, List.append_assoc, List.cons_append]

/-- **An attribute with another key**, whose value does not mention the name, is passed over. -/
lemma afterKey_written (hname : IsName name) (hkey : a.key ≠ name)
    (hmention : ¬ Mentions name a.value.raw) (hd : d ∈ [' ', ']']) (previous : Option Char)
    (rest : List Char) : afterKey (keyOf name) previous (a.written ++ d :: rest)
      = afterKey (keyOf name) (some d) rest := by
  rw [written_append, afterKey_key hname hkey, a.value.afterKey_written hname hmention hd]

/-- **An attribute with another key**, whose value mentions the name, is where the name is found. -/
lemma afterKey_of_mentioned (hname : IsName name) (hkey : a.key ≠ name)
    (hmention : FirstMention name a.value.raw front back) (previous : Option Char)
    (rest : List Char) : afterKey (keyOf name) previous (a.written ++ rest)
      = some (back ++ (a.value.quote ++ rest)) := by
  rw [written_append, afterKey_key hname hkey, Value.afterKey_of_firstMention hmention]

/-- **The attribute of the name** is found at the start of a word. -/
lemma afterKey_self (hkey : a.key = name) (hstart : startsWord previous = true)
    (rest : List Char) : afterKey (keyOf name) previous (a.written ++ rest)
      = some (a.value.written ++ rest) := by
  rw [written_append, hkey, ← keyOf_append, Dot.afterKey_self hstart (keyOf_ne_nil name)]

end Attribute

namespace AttributeList

lemma written_cons (a : Attribute) (others : List Attribute) :
    written (a :: others) = a.written ++ behind others := by
  cases others with
  | nil => simp [written, behind, Text.join]
  | cons b others => simp [written, behind, Text.join]

/-- A space or the closing bracket stands behind an attribute. -/
lemma exists_behind (others : List Attribute) :
    ∃ d rest, d ∈ [' ', ']'] ∧ behind others = d :: rest := by
  cases others with
  | nil => exact ⟨']', [], by decide, rfl⟩
  | cons b others => exact ⟨' ', _, by decide, rfl⟩

/-- **Attributes with other keys**, whose values do not mention the name, are passed over. -/
lemma afterKey_append (hname : IsName name) (hstart : startsWord previous = true)
    (hbefore : ∀ b ∈ before, b.key ≠ name ∧ ¬ Mentions name b.value.raw) (a : Attribute)
    (after : List Attribute) : ∃ previous', startsWord previous' = true ∧
      afterKey (keyOf name) previous (written (before ++ a :: after))
        = afterKey (keyOf name) previous' (written (a :: after)) := by
  induction before generalizing previous with
  | nil => exact ⟨previous, hstart, rfl⟩
  | cons b before ih =>
    obtain ⟨⟨hkey, hmention⟩, hbefore⟩ := List.forall_mem_cons.1 hbefore
    have hspace : startsWord (some ' ') = true := rfl
    obtain ⟨previous', hstart', hrest⟩ := ih hspace hbefore
    refine ⟨previous', hstart', ?_⟩
    have hbehind : behind (before ++ a :: after) = ' ' :: written (before ++ a :: after) := by
      cases before <;> rfl
    rw [List.cons_append, written_cons, hbehind,
      b.afterKey_written hname hkey hmention List.mem_cons_self, hrest]

/-- **A name that is neither a key nor mentioned** is not found. -/
lemma afterKey_eq_none (hname : IsName name)
    (hall : ∀ b ∈ attributes, b.key ≠ name ∧ ¬ Mentions name b.value.raw) :
    afterKey (keyOf name) previous (written attributes) = none := by
  induction attributes generalizing previous with
  | nil => exact afterKey_cons (hname.not_keyOf_begins (by decide) []) previous
  | cons a others ih =>
    obtain ⟨⟨hkey, hmention⟩, hothers⟩ := List.forall_mem_cons.1 hall
    rw [written_cons]
    cases others with
    | nil => exact a.afterKey_written hname hkey hmention (d := ']') (by decide) previous []
    | cons b others =>
      exact (a.afterKey_written hname hkey hmention List.mem_cons_self previous _).trans
        (ih hothers)

lemma attribute?_eq_none (hname : IsName name)
    (hall : ∀ b ∈ attributes, b.key ≠ name ∧ ¬ Mentions name b.value.raw) :
    attribute? name (written attributes) = none := by
  rw [attribute?, ← keyOf, afterKey_eq_none hname hall]
  rfl

/-- **An attribute of the name** is looked up behind others that are passed over. -/
lemma attribute?_self (hname : IsName name)
    (hbefore : ∀ b ∈ before, b.key ≠ name ∧ ¬ Mentions name b.value.raw) (hkey : a.key = name)
    (after : List Attribute) :
    attribute? name (written (before ++ a :: after)) = some a.value.raw := by
  have hbegin : startsWord none = true := rfl
  obtain ⟨previous, hstart, hrest⟩ := afterKey_append hname hbegin hbefore a after
  obtain ⟨d, rest, hd, hbehind⟩ := exists_behind after
  rw [attribute?, ← keyOf, hrest, written_cons, a.afterKey_self hkey hstart, hbehind]
  exact congrArg some (a.value.takeValue_written hd rest)

/-- **A value that mentions the name**, behind others that are passed over, is read from behind its
first mention. -/
lemma exists_attribute?_of_mentions (hname : IsName name)
    (hbefore : ∀ b ∈ before, b.key ≠ name ∧ ¬ Mentions name b.value.raw) (hkey : a.key ≠ name)
    (hmention : Mentions name a.value.raw) (after : List Attribute) :
    ∃ front back, FirstMention name a.value.raw front back ∧
      attribute? name (written (before ++ a :: after))
        = some (takeValue (back ++ (a.value.quote ++ behind after))) := by
  have hbegin : startsWord none = true := rfl
  obtain ⟨front, back, hfirst⟩ := hmention.exists_firstMention
  obtain ⟨previous, -, hrest⟩ := afterKey_append hname hbegin hbefore a after
  refine ⟨front, back, hfirst, ?_⟩
  rw [attribute?, ← keyOf, hrest, written_cons, a.afterKey_of_mentioned hname hkey hfirst]
  rfl

/-- **The first attribute of a name is looked up**, unless the value of an attribute in front of it
mentions the name; then the text behind the first mention is read as the value.  Keys are words, and
values are bare or in quotes. -/
theorem attribute?_written (attributes : List Attribute) (name : String) (hname : IsName name) :
    ((∀ b ∈ attributes.takeWhile (·.key ≠ name), ¬ Mentions name b.value.raw) →
      attribute? name (written attributes)
        = (attributes.find? (·.key = name)).map (·.value.raw)) ∧
    ∀ before a after, attributes = before ++ a :: after →
      (∀ b ∈ before, b.key ≠ name ∧ ¬ Mentions name b.value.raw) →
      a.key ≠ name → Mentions name a.value.raw →
      ∃ front back, FirstMention name a.value.raw front back ∧
        attribute? name (written attributes)
          = some (takeValue (back ++ (a.value.quote ++ behind after))) := by
  refine ⟨fun hmention => ?_, ?_⟩
  · cases hfind : attributes.find? (·.key = name) with
    | none =>
      have hkeys : ∀ b ∈ attributes, b.key ≠ name := by
        simpa using List.find?_eq_none.1 hfind
      rw [List.takeWhile_eq_self_iff.2 (by simpa using hkeys)] at hmention
      exact attribute?_eq_none hname fun b hb => ⟨hkeys b hb, hmention b hb⟩
    | some a =>
      obtain ⟨hkey, before, after, rfl, hbefore⟩ := List.find?_eq_some_iff_append.1 hfind
      have hkeys : ∀ b ∈ before, b.key ≠ name := by simpa using hbefore
      have hkey : a.key = name := by simpa using hkey
      rw [List.takeWhile_append_of_pos (by simpa using hkeys),
        List.takeWhile_cons_of_neg (by simpa using hkey), List.append_nil] at hmention
      exact attribute?_self hname (fun b hb => ⟨hkeys b hb, hmention b hb⟩) hkey after
  · rintro before a after rfl hbefore hkey hmention
    exact exists_attribute?_of_mentions hname hbefore hkey hmention after

/-- An attribute whose value has an escaped quote and mentions a label behind it. -/
def escapedAttribute : Attribute where
  key := "xtooltip"
  value := .quoted ('\\' :: '"' :: " of label=".toList) (.escape (isEscaped_of_forall (by simp)))
  isWord_key := ⟨by simp, by simp [Text.isBlank, Text.blankRanges]⟩

def tooltipAttribute : Attribute where
  key := "tooltip"
  value := .quoted "p.F (1s)".toList (isEscaped_of_forall (by simp))
  isWord_key := ⟨by simp, by simp [Text.isBlank, Text.blankRanges]⟩

def shapeAttribute : Attribute where
  key := "shape"
  value := .bare "box".toList (by simp) (by simp) (by simp [Text.isBlank, Text.blankRanges])
  isWord_key := ⟨by simp, by simp [Text.isBlank, Text.blankRanges]⟩

def escapedList : List Attribute :=
  [escapedAttribute, tooltipAttribute, shapeAttribute]

/-- The tooltip is told from the key that ends in its name.  There is no label, but one is mentioned
in a value, and its own value is what stands in front of the next quote. -/
theorem attribute?_written_escapedList :
    written escapedList
      = "xtooltip=\"\\\" of label=\" tooltip=\"p.F (1s)\" shape=box]".toList ∧
    IsName "tooltip" ∧
    (∀ b ∈ escapedList.takeWhile (·.key ≠ "tooltip"), ¬ Mentions "tooltip" b.value.raw) ∧
    attribute? "tooltip" (written escapedList) = some "p.F (1s)".toList ∧
    IsName "label" ∧ Mentions "label" escapedAttribute.value.raw ∧
    ∃ front back, FirstMention "label" escapedAttribute.value.raw front back ∧
      attribute? "label" (written escapedList)
        = some (takeValue (back ++ '"' :: behind [tooltipAttribute, shapeAttribute])) := by
  have hlist : written escapedList
      = "xtooltip=\"\\\" of label=\" tooltip=\"p.F (1s)\" shape=box]".toList := by
    simp [written, escapedList, escapedAttribute, tooltipAttribute, shapeAttribute,
      Attribute.written, Value.written, Value.raw, Value.quote, Text.join]
  have htooltip : IsName "tooltip" := by simp [IsName]
  have hlabel : IsName "label" := by simp [IsName]
  have hfront : ∀ b ∈ escapedList.takeWhile (·.key ≠ "tooltip"),
      ¬ Mentions "tooltip" b.value.raw := by
    intro b hb hmention
    obtain rfl : b = escapedAttribute := by
      simpa [escapedList, escapedAttribute, tooltipAttribute] using hb
    have hmem : 'p' ∈ escapedAttribute.value.raw := hmention.subset (by simp)
    simp [escapedAttribute, Value.raw] at hmem
  have hmention : Mentions "label" escapedAttribute.value.raw :=
    ⟨'\\' :: '"' :: " of ".toList, [], by simp [escapedAttribute, Value.raw], by simp, by decide⟩
  refine ⟨hlist, htooltip, hfront, ?_, hlabel, hmention, ?_⟩
  · exact (attribute?_written escapedList "tooltip" htooltip).1 hfront
  · exact (attribute?_written escapedList "label" hlabel).2 [] escapedAttribute _ rfl (by simp)
      (by decide) hmention

/-- A list with a label that mentions a tooltip in front of the tooltip. -/
def mentioningList : List Attribute :=
  [{ key := "label"
     value := .quoted "p tooltip=x 1s (100%)".toList (isEscaped_of_forall (by simp))
     isWord_key := ⟨by simp, by simp [Text.isBlank, Text.blankRanges]⟩ },
   tooltipAttribute]

/-- **Text in the value of an attribute is taken for another attribute.** -/
theorem attribute?_mentioningList :
    written mentioningList = "label=\"p tooltip=x 1s (100%)\" tooltip=\"p.F (1s)\"]".toList ∧
    (mentioningList.find? (·.key = "tooltip")).map (·.value.raw) = some "p.F (1s)".toList ∧
    attribute? "tooltip" (written mentioningList) = some "x".toList := by
  have hlist : written mentioningList
      = "label=\"p tooltip=x 1s (100%)\" tooltip=\"p.F (1s)\"]".toList := by
    simp [written, mentioningList, tooltipAttribute, Attribute.written, Value.written, Value.raw,
      Value.quote, Text.join]
  refine ⟨hlist, ?_, ?_⟩
  · decide
  · rw [hlist]
    decide

end AttributeList

end BenchCover.Dot
