import BenchCover.Proofs.Text.Pieces
import BenchCover.Text.Blank
import Mathlib.Data.List.Induction
import Mathlib.Tactic.Lemma

/-!
# What trimming leaves

Trimming takes blanks off the ends of a text (`trim_append_append`), so that words without blanks stay
in it: `infix_trim_iff`.  The pieces of a text are trimmed to the same whether the text was trimmed or
not: `map_trim_split_trim`.
-/

namespace BenchCover.Text

variable {separator word text : List Char} {c : Char}

/-- A text without blanks is left alone. -/
lemma trim_of_forall (htext : ∀ c ∈ text, isBlank c = false) : trim text = text :=
  trim_eq_self (fun c hc => htext c (List.mem_of_mem_head? hc))
    fun c hc => htext c (List.mem_of_mem_getLast? hc)

lemma trim_cons_blank (hc : isBlank c = true) (text : List Char) :
    trim (c :: text) = trim text := by
  rw [trim, trimStart, List.dropWhile_cons_of_pos hc, ← trimStart, ← trim]

lemma trim_concat_blank (hc : isBlank c = true) (text : List Char) : trim (text ++ [c]) = trim text := by
  rw [trim, trimStart, List.dropWhile_append]
  split_ifs with hempty
  · rw [List.isEmpty_iff] at hempty
    rw [List.dropWhile_cons_of_pos hc, trim, trimStart, hempty, List.dropWhile_nil]
  · rw [trimEnd, List.reverse_concat, List.dropWhile_cons_of_pos hc, ← trimEnd, trim, trimStart]

/-- Blanks at the ends are trimmed off. -/
lemma trim_append_append {before after : List Char} (hbefore : ∀ c ∈ before, isBlank c = true)
    (hafter : ∀ c ∈ after, isBlank c = true) (text : List Char) :
    trim (before ++ text ++ after) = trim text := by
  have hstart : trim (before ++ text) = trim text := by
    induction before with
    | nil => rfl
    | cons c rest ih =>
      rw [List.cons_append, trim_cons_blank (hbefore c List.mem_cons_self)]
      exact ih fun d hd => hbefore d (List.mem_cons_of_mem _ hd)
  induction after using List.reverseRecOn with
  | nil => rw [List.append_nil, hstart]
  | append_singleton rest c ih =>
    rw [← List.append_assoc, trim_concat_blank (hafter c (by simp))]
    exact ih fun d hd => hafter d (by simp [hd])

lemma infix_trimStart_iff (hne : word ≠ []) (hword : ∀ c ∈ word, isBlank c = false) :
    word <:+: trimStart text ↔ word <:+: text := by
  induction text with
  | nil => rfl
  | cons c rest ih =>
    by_cases hc : isBlank c = true
    · rw [trimStart, List.dropWhile_cons_of_pos hc, ← trimStart, ih, List.infix_cons_iff,
        or_iff_right]
      intro hbegins
      obtain ⟨first, others, rfl⟩ := List.exists_cons_of_ne_nil hne
      obtain rfl : first = c := (List.cons_prefix_cons.1 hbegins).1
      exact absurd hc (by simp [hword first List.mem_cons_self])
    · rw [trimStart, List.dropWhile_cons_of_neg hc]

/-- **Words without blanks stay** when a text is trimmed. -/
theorem infix_trim_iff (hne : word ≠ []) (hword : ∀ c ∈ word, isBlank c = false) :
    word <:+: trim text ↔ word <:+: text := by
  have hreverse : ∀ c ∈ word.reverse, isBlank c = false := by simpa using hword
  rw [trim, trimEnd, ← List.reverse_infix, List.reverse_reverse, ← trimStart,
    infix_trimStart_iff (by simpa using hne) hreverse, List.reverse_infix,
    infix_trimStart_iff hne hword]

/-- **Trimmed pieces** do not depend on the blanks around the text. -/
theorem map_trim_split_trim (hne : separator ≠ []) (hseparator : ∀ c ∈ separator, isBlank c = false)
    (text : List Char) :
    (split separator (trim text)).map trim = (split separator text).map trim := by
  have hend : ∀ text : List Char,
      (split separator (trimEnd text)).map trim = (split separator text).map trim := by
    intro text
    induction text using List.reverseRecOn with
    | nil => rfl
    | append_singleton rest c ih =>
      by_cases hc : isBlank c = true
      · have hnot : c ∉ separator := fun hmem => by simp [hseparator c hmem] at hc
        obtain ⟨front, piece, hsplit, hconcat⟩ := exists_split_concat hnot hne rest
        rw [trimEnd, List.reverse_concat, List.dropWhile_cons_of_pos hc, ← trimEnd, ih, hsplit,
          hconcat, List.map_append, List.map_append, List.map_singleton, List.map_singleton,
          trim_concat_blank hc]
      · rw [trimEnd, List.reverse_concat, List.dropWhile_cons_of_neg hc, List.reverse_cons,
          List.reverse_reverse]
  rw [trim, hend]
  induction text with
  | nil => rfl
  | cons c rest ih =>
    by_cases hc : isBlank c = true
    · have hbegins : ¬ separator <+: c :: rest := by
        obtain ⟨first, others, rfl⟩ := List.exists_cons_of_ne_nil hne
        intro hbegins
        obtain rfl := (List.cons_prefix_cons.1 hbegins).1
        simp [hseparator first List.mem_cons_self] at hc
      obtain ⟨piece, pieces, hsplit⟩ := List.exists_cons_of_ne_nil (split_ne_nil separator rest)
      rw [trimStart, List.dropWhile_cons_of_pos hc, ← trimStart, ih, split_cons hbegins, hsplit,
        consFirst, List.map_cons, List.map_cons, trim_cons_blank hc]
    · rw [trimStart, List.dropWhile_cons_of_neg hc]

end BenchCover.Text
