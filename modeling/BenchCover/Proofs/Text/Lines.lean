import BenchCover.Text.Lines
import Mathlib.Data.List.Basic
import Mathlib.Tactic.Lemma

/-!
# Texts that are cut between lines

The lines of a text are those of its part in front of some line and then those of the rest:
`exists_cut_lines`.
-/

namespace BenchCover.Text

variable {α : Type} [DecidableEq α] {ends : LineEnd α}

lemma linesFrom_of_notMem {sequence : List α} (hsequence : ends.newline ∉ sequence)
    (met : List α) : linesFrom ends met sequence
      = if (sequence.reverse ++ met).isEmpty then [] else [(sequence.reverse ++ met).reverse] := by
  induction sequence generalizing met with
  | nil => rfl
  | cons c rest ih =>
    rw [linesFrom, if_neg (List.ne_of_not_mem_cons hsequence).symm,
      ih (List.not_mem_of_not_mem_cons hsequence), List.reverse_cons, List.append_assoc,
      List.singleton_append]

/-- What no newline ends is at most one line. -/
lemma length_lines_of_notMem {sequence : List α} (hsequence : ends.newline ∉ sequence) :
    (lines ends sequence).length ≤ 1 := by
  rw [lines, linesFrom_of_notMem hsequence]
  split_ifs
  · exact Nat.zero_le 1
  · exact Nat.le_refl 1

/-- **A text can be cut in front of any of its lines.** -/
theorem exists_cut_lines (ends : LineEnd α) (n : ℕ) (sequence : List α) :
    ∃ before after, sequence = before ++ after ∧
      lines ends before = (lines ends sequence).take n ∧
      lines ends after = (lines ends sequence).drop n := by
  induction n generalizing sequence with
  | zero => exact ⟨[], sequence, rfl, by simp, by simp⟩
  | succ n ih =>
    by_cases hnewline : ends.newline ∈ sequence
    · obtain ⟨line, rest, rfl, hline⟩ := List.eq_append_cons_of_mem hnewline
      obtain ⟨before, after, rfl, hbefore, hafter⟩ := ih rest
      refine ⟨line ++ ends.newline :: before, after, by simp, ?_, ?_⟩
      · rw [lines_append_newline ends before hline, lines_append_newline ends _ hline,
          List.take_succ_cons, hbefore]
      · rw [lines_append_newline ends _ hline, List.drop_succ_cons, hafter]
    · have hlength : (lines ends sequence).length ≤ n + 1 :=
        Nat.le_trans (length_lines_of_notMem hnewline) (Nat.le_add_left 1 n)
      refine ⟨sequence, [], by simp, (List.take_of_length_le hlength).symm, ?_⟩
      rw [List.drop_of_length_le hlength, lines_nil]

end BenchCover.Text
