/-!
# Blank characters

The white space of the Unicode standard, and trimming by it.  Function names, DOT identifiers and
counts are all trimmed by this rule, so that `U+00A0` and `U+3000` count as blank while the
zero-width `U+200B` and `U+FEFF` do not.

`isBlank_of_isWhitespace` says that the ASCII white space of the core library is part of the
class, and `trim_trim` that a trimmed text has no blanks left to trim.
-/

namespace BenchCover.Text

/-- The ranges of code points that have the Unicode property `White_Space`, ends included. -/
def blankRanges : List (Nat × Nat) :=
  [(0x9, 0xD), (0x20, 0x20), (0x85, 0x85), (0xA0, 0xA0), (0x1680, 0x1680), (0x2000, 0x200A),
    (0x2028, 0x2029), (0x202F, 0x202F), (0x205F, 0x205F), (0x3000, 0x3000)]

def isBlank (c : Char) : Bool :=
  blankRanges.any fun (low, high) => low ≤ c.toNat && c.toNat ≤ high

/-- The text without the blanks it starts with. -/
def trimStart (text : List Char) : List Char :=
  text.dropWhile isBlank

/-- The text without the blanks it ends in. -/
def trimEnd (text : List Char) : List Char :=
  (text.reverse.dropWhile isBlank).reverse

/-- The text without the blanks at either end. -/
def trim (text : List Char) : List Char :=
  trimEnd (trimStart text)

/-- A string without the blanks at either end. -/
def trimmed (s : String) : String :=
  String.ofList (trim s.toList)

/-! ## Laws -/

/-- Every white space character that the core library knows is blank. -/
theorem isBlank_of_isWhitespace {c : Char} (h : c.isWhitespace = true) : isBlank c = true := by
  simp only [Char.isWhitespace, Bool.or_eq_true, decide_eq_true_eq] at h
  rcases h with ((rfl | rfl) | rfl) | rfl <;> decide

theorem not_isBlank_of_head?_dropWhile {text : List Char} {c : Char}
    (h : (text.dropWhile isBlank).head? = some c) : isBlank c = false := by
  induction text with
  | nil => simp at h
  | cons d rest ih =>
    by_cases hd : isBlank d = true
    · exact ih (by simpa [hd] using h)
    · simp only [List.dropWhile_cons, hd] at h
      simp_all

/-- A text that neither starts nor ends in a blank is left alone. -/
theorem trim_eq_self {text : List Char} (first : ∀ c, text.head? = some c → isBlank c = false)
    (last : ∀ c, text.getLast? = some c → isBlank c = false) : trim text = text := by
  have starts : trimStart text = text := by
    cases text with
    | nil => rfl
    | cons c rest => simp [trimStart, first c rfl]
  rw [trim, starts, trimEnd]
  cases h : text.reverse with
  | nil => simp_all
  | cons c rest =>
    have : text = rest.reverse ++ [c] := by simpa using congrArg List.reverse h
    have hc : isBlank c = false := last c (by simp [this])
    simp [hc, this]

theorem getLast?_trim {text : List Char} {c : Char} (h : (trim text).getLast? = some c) :
    isBlank c = false := by
  rw [trim, trimEnd, List.getLast?_reverse] at h
  exact not_isBlank_of_head?_dropWhile h

theorem head?_trim {text : List Char} {c : Char} (h : (trim text).head? = some c) :
    isBlank c = false := by
  obtain ⟨after, hafter⟩ : trim text <+: trimStart text := by
    rw [trim, trimEnd, ← List.reverse_suffix, List.reverse_reverse]
    exact List.dropWhile_suffix _
  cases ht : trim text with
  | nil => simp [ht] at h
  | cons d rest =>
    simp only [ht, List.head?_cons, Option.some.injEq] at h
    subst h
    have first : (text.dropWhile isBlank).head? = some d := by
      rw [← trimStart, ← hafter, ht]
      rfl
    exact not_isBlank_of_head?_dropWhile first

/-- **Trimming twice is trimming once.** -/
@[simp] theorem trim_trim (text : List Char) : trim (trim text) = trim text :=
  trim_eq_self (fun _ => head?_trim) fun _ => getLast?_trim

@[simp] theorem trimmed_trimmed (s : String) : trimmed (trimmed s) = trimmed s := by
  simp [trimmed]

end BenchCover.Text
