import BenchCover.Text.Pieces
import Mathlib.Data.List.TakeWhile
import Mathlib.Tactic.Lemma

/-!
# Where texts are cut

A text is split at a separator one character at a time (`split_cons`), so that what stands in front
of the first character of a separator is a piece (`split_append_of_notMem`).  Where the separator is
a single character, splitting goes piece by piece (`split_append_cons`).

A word is replaced on either side of a character that is not in it (`replace_append_cons`), since it
does not reach over such a character.

Cutting at a character finds the first or the last one: `cutFirst_append` and `cutLast_append`.
-/

namespace BenchCover.Text

variable {separator word before after text rest : List Char} {c x : Char}

/-! ## Splitting -/

lemma consFirst_append {pieces : List (List Char)} (h : pieces ≠ []) (later : List (List Char)) :
    consFirst x (pieces ++ later) = consFirst x pieces ++ later := by
  obtain ⟨piece, pieces, rfl⟩ := List.exists_cons_of_ne_nil h
  rfl

lemma split_cons (hbegins : ¬ separator <+: c :: text) :
    split separator (c :: text) = consFirst c (split separator text) := by
  rw [split, splitFrom, if_neg (mt List.isPrefixOf_iff_prefix.1 hbegins), split]

lemma split_separator_append (hseparator : separator ≠ []) (text : List Char) :
    split separator (separator ++ text) = [] :: split separator text := by
  obtain ⟨first, others, rfl⟩ := List.exists_cons_of_ne_nil hseparator
  have hbegins : (first :: others).isPrefixOf (first :: (others ++ text)) = true :=
    List.isPrefixOf_iff_prefix.2 (List.prefix_append (first :: others) text)
  rw [List.cons_append, split, splitFrom, if_pos hbegins, splitFrom_skip]
  simp

lemma split_of_not_infix (h : ¬ separator <:+: text) : split separator text = [text] := by
  induction text with
  | nil => rfl
  | cons c rest ih =>
    rw [List.infix_cons_iff, not_or] at h
    rw [split_cons h.1, ih h.2]
    rfl

lemma length_consFirst {pieces : List (List Char)} (h : pieces ≠ []) (c : Char) :
    (consFirst c pieces).length = pieces.length := by
  obtain ⟨piece, rest, rfl⟩ := List.exists_cons_of_ne_nil h
  rfl

lemma one_lt_length_split (hne : separator ≠ []) (h : separator <:+: text) :
    1 < (split separator text).length := by
  induction text with
  | nil => exact absurd (List.infix_nil.1 h) hne
  | cons c rest ih =>
    by_cases hbegins : separator <+: c :: rest
    · obtain ⟨after, hafter⟩ := hbegins
      rw [← hafter, split_separator_append hne, List.length_cons]
      exact Nat.succ_lt_succ (List.length_pos_iff.2 (split_ne_nil _ _))
    · rw [split_cons hbegins, length_consFirst (split_ne_nil _ _)]
      exact ih ((List.infix_cons_iff.1 h).resolve_left hbegins)

/-- A text without the first character of the separator is one piece. -/
lemma split_of_notMem (htext : c ∉ text) : split (c :: word) text = [text] :=
  split_of_not_infix fun hinside => htext (hinside.subset List.mem_cons_self)

/-- **What stands in front of the first separator is the first piece.** -/
lemma split_append_of_notMem (hbefore : c ∉ before) :
    split (c :: word) (before ++ (c :: word ++ after)) = before :: split (c :: word) after := by
  induction before with
  | nil => exact split_separator_append (List.cons_ne_nil c word) after
  | cons d rest ih =>
    rw [List.cons_append, split_cons, ih (List.not_mem_of_not_mem_cons hbefore)]
    · rfl
    · exact fun hbegins => List.ne_of_not_mem_cons hbefore (List.cons_prefix_cons.1 hbegins).1

/-! ### At two characters -/

variable {a b : Char}

/-- A separator of two different characters does not begin at the end of a piece. -/
lemma split_append_separator (hab : a ≠ b) {before : List Char} (h : ¬ [a, b] <:+: before)
    (after : List Char) :
    split [a, b] (before ++ ([a, b] ++ after)) = before :: split [a, b] after := by
  induction before with
  | nil => exact split_separator_append (List.cons_ne_nil a [b]) after
  | cons c rest ih =>
    rw [List.infix_cons_iff, not_or] at h
    have hbegins : ¬ [a, b] <+: c :: (rest ++ ([a, b] ++ after)) := by
      intro hbegins
      obtain ⟨rfl, hrest⟩ := List.cons_prefix_cons.1 hbegins
      cases rest with
      | nil => exact hab (List.cons_prefix_cons.1 hrest).1.symm
      | cons d rest =>
        obtain ⟨rfl, -⟩ := List.cons_prefix_cons.1 hrest
        exact h.1 ⟨rest, rfl⟩
    rw [List.cons_append, split_cons hbegins, ih h.2]
    rfl

/-- **Pieces that were joined** are split again. -/
theorem split_join (hab : a ≠ b) {pieces : List (List Char)} (hne : pieces ≠ [])
    (hpieces : ∀ piece ∈ pieces, ¬ [a, b] <:+: piece) :
    split [a, b] (join [a, b] pieces) = pieces := by
  induction pieces with
  | nil => exact absurd rfl hne
  | cons piece rest ih =>
    cases rest with
    | nil => simpa [join] using split_of_not_infix (hpieces piece List.mem_cons_self)
    | cons next rest =>
      rw [join, List.intercalate_cons_cons, List.append_assoc,
        split_append_separator hab (hpieces piece List.mem_cons_self), ← join,
        ih (List.cons_ne_nil _ _) fun other hother => hpieces other (List.mem_cons_of_mem _ hother)]

lemma mem_of_mem_join {pieces : List (List Char)} (hc : c ∈ join separator pieces) :
    c ∈ separator ∨ ∃ piece ∈ pieces, c ∈ piece := by
  induction pieces with
  | nil => simp [join] at hc
  | cons piece rest ih =>
    cases rest with
    | nil => exact Or.inr ⟨piece, List.mem_cons_self, by simpa [join] using hc⟩
    | cons next rest =>
      rw [join, List.intercalate_cons_cons, List.mem_append, List.mem_append] at hc
      rcases hc with (hc | hc) | hc
      · exact Or.inr ⟨piece, List.mem_cons_self, hc⟩
      · exact Or.inl hc
      · rcases ih hc with hmem | ⟨other, hother, hmem⟩
        · exact Or.inl hmem
        · exact Or.inr ⟨other, List.mem_cons_of_mem _ hother, hmem⟩

/-- Pieces that are joined in two parts have a separator between the parts. -/
lemma join_append_of_ne_nil (separator : List Char) {front back : List (List Char)}
    (hfront : front ≠ []) (hback : back ≠ []) :
    join separator (front ++ back) = join separator front ++ separator ++ join separator back := by
  induction front with
  | nil => exact absurd rfl hfront
  | cons piece rest ih =>
    cases rest with
    | nil =>
      obtain ⟨next, others, rfl⟩ := List.exists_cons_of_ne_nil hback
      rw [List.singleton_append, join, List.intercalate_cons_cons, join, List.intercalate_singleton,
        join]
    | cons next rest =>
      have hrest := ih (List.cons_ne_nil next rest)
      simp only [join, List.cons_append, List.intercalate_cons_cons, List.append_assoc] at hrest ⊢
      rw [hrest]

/-! ### At a character -/

lemma split_nil (c : Char) : split [c] [] = [[]] := rfl

lemma split_cons_self (c : Char) (rest : List Char) :
    split [c] (c :: rest) = [] :: split [c] rest :=
  split_separator_append (List.cons_ne_nil c []) rest

lemma split_cons_of_ne (h : x ≠ c) : split [c] (x :: rest) = consFirst x (split [c] rest) :=
  split_cons fun hbegins => h (List.cons_prefix_cons.1 hbegins).1.symm

/-- **A separator cuts a text in two**, which are cut on their own. -/
theorem split_append_cons (c : Char) (l rest : List Char) :
    split [c] (l ++ c :: rest) = split [c] l ++ split [c] rest := by
  induction l with
  | nil => rw [List.nil_append, split_cons_self, split_nil, List.singleton_append]
  | cons x l ih =>
    by_cases hx : x = c
    · subst hx
      rw [List.cons_append, split_cons_self, ih, split_cons_self, List.cons_append]
    · rw [List.cons_append, split_cons_of_ne hx, ih, split_cons_of_ne hx,
        consFirst_append (split_ne_nil _ _)]

/-- What holds of all characters but the separator holds of those of the pieces. -/
lemma forall_mem_split {p : Char → Prop} (h : ∀ x ∈ text, x = c ∨ p x) :
    ∀ piece ∈ split [c] text, ∀ x ∈ piece, p x := by
  induction text with
  | nil => simp [split_nil]
  | cons x rest ih =>
    obtain ⟨hx, hrest⟩ := List.forall_mem_cons.1 h
    by_cases hsame : x = c
    · subst hsame
      rw [split_cons_self]
      exact List.forall_mem_cons.2 ⟨by simp, ih hrest⟩
    · obtain ⟨first, pieces, hsplit⟩ := List.exists_cons_of_ne_nil (split_ne_nil [c] rest)
      have hpieces := ih hrest
      rw [hsplit] at hpieces
      obtain ⟨hfirst, hothers⟩ := List.forall_mem_cons.1 hpieces
      rw [split_cons_of_ne hsame, hsplit]
      exact List.forall_mem_cons.2
        ⟨List.forall_mem_cons.2 ⟨hx.resolve_left hsame, hfirst⟩, hothers⟩

lemma notMem_of_mem_split (c : Char) (text : List Char) : ∀ piece ∈ split [c] text, c ∉ piece :=
  fun piece hpiece hmem =>
    forall_mem_split (p := fun x => x ≠ c) (fun x _ => Classical.em (x = c)) piece hpiece c hmem rfl

/-- Pieces without the separator that were joined are split again. -/
theorem split_join_char {pieces : List (List Char)} (hne : pieces ≠ [])
    (hpieces : ∀ piece ∈ pieces, c ∉ piece) : split [c] (join [c] pieces) = pieces := by
  induction pieces with
  | nil => exact absurd rfl hne
  | cons piece rest ih =>
    obtain ⟨hpiece, hrest⟩ := List.forall_mem_cons.1 hpieces
    cases rest with
    | nil =>
      rw [join, List.intercalate_singleton]
      exact split_of_notMem hpiece
    | cons next rest =>
      rw [join, List.intercalate_cons_cons, List.append_assoc, List.singleton_append,
        split_append_cons, split_of_notMem hpiece, ← join, ih (List.cons_ne_nil _ _) hrest,
        List.singleton_append]

/-! ## Replacing -/

lemma replace_word_append (hword : word ≠ []) (replacement text : List Char) :
    replace word replacement (word ++ text) = replacement ++ replace word replacement text := by
  rw [replace, split_separator_append hword, join_nil_cons _ (split_ne_nil _ _), replace]

lemma replace_cons (hbegins : ¬ word <+: c :: text) (replacement : List Char) :
    replace word replacement (c :: text) = c :: replace word replacement text := by
  rw [replace, split_cons hbegins, join_consFirst _ _ (split_ne_nil _ _), replace]

lemma replace_of_not_infix (htext : ¬ word <:+: text) (replacement : List Char) :
    replace word replacement text = text := by
  induction text with
  | nil => rfl
  | cons c rest ih =>
    rw [List.infix_cons_iff, not_or] at htext
    rw [replace_cons htext.1, ih htext.2]

lemma replace_of_notMem (hword : c ∈ word) (htext : c ∉ text) (replacement : List Char) :
    replace word replacement text = text :=
  replace_of_not_infix (fun hinside => htext (hinside.subset hword)) replacement

/-- A text without the first character of a word stays as it is, whatever follows. -/
lemma replace_append_left (hbefore : c ∉ before) (replacement after : List Char) :
    replace (c :: word) replacement (before ++ after)
      = before ++ replace (c :: word) replacement after := by
  induction before with
  | nil => rfl
  | cons d rest ih =>
    have hbegins : ¬ c :: word <+: d :: (rest ++ after) := fun hbegins =>
      List.ne_of_not_mem_cons hbefore (List.cons_prefix_cons.1 hbegins).1
    rw [List.cons_append, replace_cons hbegins, ih (List.not_mem_of_not_mem_cons hbefore),
      List.cons_append]

/-- What stands in front of the first occurrence of a word stays as it is. -/
lemma replace_append_of_notMem (hbefore : c ∉ before) (replacement : List Char) :
    replace (c :: word) replacement (before ++ (c :: word ++ after))
      = before ++ (replacement ++ replace (c :: word) replacement after) := by
  rw [replace_append_left hbefore, replace_word_append (List.cons_ne_nil c word)]

/-- A word does not reach over a character that is not in it. -/
lemma prefix_of_prefix_append_cons (hword : c ∉ word) (hbegins : word <+: before ++ c :: after) :
    word <+: before := by
  rcases List.prefix_or_prefix_of_prefix hbegins (List.prefix_append before (c :: after)) with
    hshort | ⟨rest, rfl⟩
  · exact hshort
  · cases rest with
    | nil => exact ⟨[], by rw [List.append_nil, List.append_nil]⟩
    | cons d rest =>
      obtain rfl := (List.cons_prefix_cons.1 ((List.prefix_append_right_inj before).1 hbegins)).1
      exact absurd (List.mem_append_right before List.mem_cons_self) hword

/-- A character that is not in the separator joins the last piece. -/
lemma exists_split_concat (hc : c ∉ separator) (hne : separator ≠ []) : ∀ text : List Char,
    ∃ front piece, split separator text = front ++ [piece] ∧
      split separator (text ++ [c]) = front ++ [piece ++ [c]] := by
  intro text
  -- A separator at the front is passed over as a whole, so the induction is on the length.
  induction hlength : text.length using Nat.strong_induction_on generalizing text with
  | _ length ih =>
    subst hlength
    by_cases hbegins : separator <+: text
    · obtain ⟨rest, rfl⟩ := hbegins
      have hshorter : rest.length < (separator ++ rest).length := by
        have := List.length_pos_iff.2 hne
        rw [List.length_append]
        omega
      obtain ⟨front, piece, hsplit, hconcat⟩ := ih _ hshorter rest rfl
      refine ⟨[] :: front, piece, ?_, ?_⟩
      · rw [split_separator_append hne, hsplit, List.cons_append]
      · rw [List.append_assoc, split_separator_append hne, hconcat, List.cons_append]
    · have hlonger : ¬ separator <+: text ++ [c] := mt (prefix_of_prefix_append_cons hc) hbegins
      cases text with
      | nil =>
        refine ⟨[], [], rfl, ?_⟩
        rw [List.nil_append] at hlonger ⊢
        rw [split_cons hlonger]
        rfl
      | cons d rest =>
        obtain ⟨front, piece, hsplit, hconcat⟩ := ih rest.length (Nat.lt_succ_self _) rest rfl
        rw [List.cons_append] at hlonger ⊢
        rw [split_cons hlonger, split_cons hbegins, hsplit, hconcat]
        cases front with
        | nil => exact ⟨[], d :: piece, rfl, rfl⟩
        | cons first front => exact ⟨(d :: first) :: front, piece, rfl, rfl⟩

/-- **Words are replaced on either side** of a character that is not in the word. -/
theorem replace_append_cons (hne : word ≠ []) (hword : c ∉ word) (replacement : List Char) :
    ∀ before after : List Char, replace word replacement (before ++ c :: after)
      = replace word replacement before ++ c :: replace word replacement after := by
  intro before after
  -- A word at the front is passed over as a whole, so the induction is on the length.
  induction hlength : before.length using Nat.strong_induction_on generalizing before with
  | _ length ih =>
    subst hlength
    by_cases hbegins : word <+: before
    · obtain ⟨rest, rfl⟩ := hbegins
      have hshorter : rest.length < (word ++ rest).length := by
        have := List.length_pos_iff.2 hne
        rw [List.length_append]
        omega
      rw [List.append_assoc, replace_word_append hne, replace_word_append hne, ih _ hshorter _ rfl,
        List.append_assoc]
    · have hlonger : ¬ word <+: before ++ c :: after :=
        mt (prefix_of_prefix_append_cons hword) hbegins
      cases before with
      | nil => exact replace_cons hlonger replacement
      | cons d rest =>
        have hrest := ih rest.length (Nat.lt_succ_self _) rest rfl
        rw [List.cons_append] at hlonger ⊢
        rw [replace_cons hlonger, replace_cons hbegins, hrest, List.cons_append]

/-- Taking a word out of a text adds no characters. -/
lemma mem_of_mem_erase (hword : word ≠ []) (hc : c ∈ replace word [] text) : c ∈ text := by
  have hjoin : ∀ pieces : List (List Char), c ∈ join [] pieces → c ∈ join word pieces := by
    intro pieces
    induction pieces with
    | nil => exact id
    | cons piece pieces ih =>
      cases pieces with
      | nil => exact id
      | cons next pieces =>
        simp only [join, List.intercalate_cons_cons, List.mem_append, List.not_mem_nil,
          or_false] at ih ⊢
        exact fun h => h.elim (fun hpiece => Or.inl (Or.inl hpiece)) fun hrest => Or.inr (ih hrest)
  rw [← join_split hword text]
  exact hjoin _ hc

/-- A character that is left when a word is taken out of a text begins an end of the text of which
the rest is left. -/
lemma exists_suffix_of_erase (hword : word ≠ []) {before after : List Char} : ∀ text : List Char,
    replace word [] text = before ++ c :: after →
      ∃ ending, ending <:+ text ∧ replace word [] ending = c :: after := by
  intro text herase
  induction hlength : text.length using Nat.strong_induction_on generalizing text before with
  | _ length ih =>
    subst hlength
    by_cases hbegins : word <+: text
    · obtain ⟨rest, rfl⟩ := hbegins
      have hshorter : rest.length < (word ++ rest).length := by
        have := List.length_pos_iff.2 hword
        rw [List.length_append]
        omega
      rw [replace_word_append hword, List.nil_append] at herase
      obtain ⟨ending, hsuffix, hending⟩ := ih _ hshorter rest herase rfl
      exact ⟨ending, hsuffix.trans (List.suffix_append _ _), hending⟩
    · cases text with
      | nil => simp [replace, split, splitFrom, join] at herase
      | cons d rest =>
        cases before with
        | nil => exact ⟨d :: rest, List.suffix_refl _, herase⟩
        | cons first before =>
          rw [replace_cons hbegins, List.cons_append] at herase
          obtain ⟨ending, hsuffix, hending⟩ :=
            ih rest.length (Nat.lt_succ_self _) rest (List.cons.inj herase).2 rfl
          exact ⟨ending, hsuffix.trans (List.suffix_cons d rest), hending⟩

/-! ## Words in a text -/

lemma contains_iff : contains word text = true ↔ word <:+: text := by
  induction text with
  | nil => simp [contains]
  | cons c rest ih =>
    rw [contains, Bool.or_eq_true, List.isPrefixOf_iff_prefix, ih, List.infix_cons_iff]

/-! ## Cutting -/

lemma cutFirst_eq_none_iff : cutFirst c text = none ↔ c ∉ text := by
  rw [cutFirst]
  cases hdrop : text.dropWhile (· != c) with
  | nil =>
    refine iff_of_true rfl fun hmem => ?_
    simpa using List.dropWhile_eq_nil_iff.1 hdrop c hmem
  | cons d rest =>
    refine iff_of_false (by simp) fun hnone => ?_
    have hall : ∀ d ∈ text, (d != c) = true := fun d hd =>
      bne_iff_ne.2 fun hsame => hnone (hsame ▸ hd)
    rw [List.dropWhile_eq_nil_iff.2 hall] at hdrop
    cases hdrop

/-- **The first occurrence of a character** is behind a text without it. -/
lemma cutFirst_append (hbefore : c ∉ before) :
    cutFirst c (before ++ c :: after) = some (before, after) := by
  have hne : ∀ d ∈ before, (d != c) = true := fun d hd =>
    bne_iff_ne.2 fun hsame => hbefore (hsame ▸ hd)
  have hstop : (c != c) = false := bne_self_eq_false c
  have hdrop : (before ++ c :: after).dropWhile (· != c) = c :: after := by
    simp only [List.dropWhile_append_of_pos hne, List.dropWhile_cons, hstop, Bool.false_eq_true,
      if_false]
  have htake : (before ++ c :: after).takeWhile (· != c) = before := by
    simp only [List.takeWhile_append_of_pos hne, List.takeWhile_cons, hstop, Bool.false_eq_true,
      if_false, List.append_nil]
  simp only [cutFirst, hdrop, htake]

lemma cutFirst_eq_some_iff :
    cutFirst c text = some (before, after) ↔ text = before ++ c :: after ∧ c ∉ before := by
  constructor
  · intro hcut
    have hmem : c ∈ text := by
      by_contra hnot
      cases hcut.symm.trans (cutFirst_eq_none_iff.2 hnot)
    obtain ⟨front, back, rfl, hfront⟩ := List.eq_append_cons_of_mem hmem
    rw [cutFirst_append hfront] at hcut
    obtain ⟨rfl, rfl⟩ := Prod.mk.inj (Option.some.inj hcut)
    exact ⟨rfl, hfront⟩
  · rintro ⟨rfl, hbefore⟩
    exact cutFirst_append hbefore

/-- **The last occurrence of a character** is in front of a text without it. -/
lemma cutLast_append (hafter : c ∉ after) :
    cutLast c (before ++ c :: after) = some (before, after) := by
  have hreverse : (before ++ c :: after).reverse = after.reverse ++ c :: before.reverse := by simp
  rw [cutLast, hreverse, cutFirst_append (by simpa using hafter)]
  simp

lemma cutLast_eq_some_iff :
    cutLast c text = some (before, after) ↔ text = before ++ c :: after ∧ c ∉ after := by
  constructor
  · intro hcut
    obtain ⟨⟨back, front⟩, hfirst, hparts⟩ := Option.map_eq_some_iff.1 hcut
    obtain ⟨hreverse, hback⟩ := cutFirst_eq_some_iff.1 hfirst
    obtain ⟨rfl, rfl⟩ := Prod.mk.inj hparts
    exact ⟨by simpa using congrArg List.reverse hreverse, by simpa using hback⟩
  · rintro ⟨rfl, hafter⟩
    exact cutLast_append hafter

end BenchCover.Text
