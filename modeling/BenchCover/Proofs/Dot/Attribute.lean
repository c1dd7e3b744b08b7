import BenchCover.Dot.Attribute
import BenchCover.Proofs.Text.Pieces

/-!
# Attributes that are found

A key is looked for through a text that has no sign `=`, up to the next blank: `afterKey_skip`.
There it is found, if it is what stands behind the blank: `afterKey_self`.  What is found stands in
the text: `infix_of_attribute?`.

A quoted value goes on through texts without quotes and backslashes, and through a character that a
backslash escapes, up to a quote: `takeQuoted_append`, `takeQuoted_escape` and `takeQuoted_quote`.
-/

namespace BenchCover.Dot

variable {key text rest : List Char} {previous : Option Char} {c d : Char}

lemma afterKey_cons (hbegins : ¬ key <+: c :: rest) (previous : Option Char) :
    afterKey key previous (c :: rest) = afterKey key (some c) rest := by
  rw [afterKey, if_neg]
  simpa using fun _ => hbegins

/-- **A key is found where it stands**, at the start of a word. -/
lemma afterKey_self (hstart : startsWord previous = true) (hkey : key ≠ []) (rest : List Char) :
    afterKey key previous (key ++ rest) = some rest := by
  obtain ⟨first, others, rfl⟩ := List.exists_cons_of_ne_nil hkey
  have hbegins : (first :: others).isPrefixOf (first :: (others ++ rest)) = true :=
    List.isPrefixOf_iff_prefix.2 (List.prefix_append (first :: others) rest)
  rw [List.cons_append, afterKey, hstart, hbegins]
  simp

/-- **A text without some character of the key** does not have the key, up to a character that is
not in the key. -/
lemma afterKey_skip (hc : c ∈ key) (htext : c ∉ text) (hd : d ∉ key) (previous : Option Char)
    (rest : List Char) :
    afterKey key previous (text ++ d :: rest) = afterKey key (some d) rest := by
  have hbegins : ∀ {text}, c ∉ text → ¬ key <+: text ++ d :: rest := fun htext hkey =>
    htext ((Text.prefix_of_prefix_append_cons hd hkey).subset hc)
  induction text generalizing previous with
  | nil => exact afterKey_cons (hbegins List.not_mem_nil) previous
  | cons first others ih =>
    have hfirst := hbegins htext
    rw [List.cons_append] at hfirst ⊢
    rw [afterKey_cons hfirst]
    exact ih (List.not_mem_of_not_mem_cons htext) (some first)

/-- A key that is found stands in the text. -/
lemma infix_of_afterKey (hfound : afterKey key previous text = some rest) : key <:+: text := by
  induction text generalizing previous with
  | nil => cases hfound
  | cons c others ih =>
    rw [afterKey] at hfound
    split_ifs at hfound with hhere
    · exact (List.isPrefixOf_iff_prefix.1 (Bool.and_eq_true_iff.1 hhere).2).isInfix
    · exact List.infix_cons (ih hfound)

/-- The name of an attribute stands in the list. -/
lemma infix_of_attribute? {name : String} {value : List Char}
    (hvalue : attribute? name text = some value) : name.toList <:+: text := by
  obtain ⟨rest, hfound, -⟩ := Option.map_eq_some_iff.1 hvalue
  exact (List.prefix_append _ _).isInfix.trans (infix_of_afterKey hfound)

/-! ## Quoted values -/

lemma takeQuoted_append (hquote : '"' ∉ text) (hescape : '\\' ∉ text) (rest : List Char) :
    takeQuoted (text ++ rest) = text ++ takeQuoted rest := by
  induction text with
  | nil => rfl
  | cons first others ih =>
    have hplain := ih (List.not_mem_of_not_mem_cons hquote) (List.not_mem_of_not_mem_cons hescape)
    rw [List.cons_append, takeQuoted.eq_4, hplain, List.cons_append]
    · exact (List.ne_of_not_mem_cons hquote).symm
    · rintro _ _ rfl
      exact absurd List.mem_cons_self hescape

lemma takeQuoted_escape (c : Char) (rest : List Char) :
    takeQuoted ('\\' :: c :: rest) = '\\' :: c :: takeQuoted rest := rfl

lemma takeQuoted_quote (rest : List Char) : takeQuoted ('"' :: rest) = [] := rfl

end BenchCover.Dot
