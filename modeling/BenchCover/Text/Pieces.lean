/-!
# Cutting texts into pieces

Splitting a text at every occurrence of a separator, replacing one word by another, and cutting
at the first or the last occurrence of a character.  A text is a list of characters, and every
function recurses on it, so that a cut can be followed character by character.

`join_split` says that no character is lost by splitting.
-/

namespace BenchCover.Text

/-- Puts a character in front of the first piece. -/
def consFirst (c : Char) : List (List Char) → List (List Char)
  | [] => [[c]]
  | piece :: pieces => (c :: piece) :: pieces

/-- The pieces of a text between the occurrences of a separator, after the first `skip` characters
have been passed over: they belong to a separator that was met before them. -/
def splitFrom (separator : List Char) : (skip : Nat) → List Char → List (List Char)
  | _, [] => [[]]
  | skip + 1, _ :: rest => splitFrom separator skip rest
  | 0, c :: rest =>
    if separator.isPrefixOf (c :: rest) then
      [] :: splitFrom separator (separator.length - 1) rest
    else
      consFirst c (splitFrom separator 0 rest)

/-- **The pieces of a text between the occurrences of a separator.**  Occurrences are found from
left to right and do not overlap; a text without the separator is its own single piece, and the
empty text is one empty piece. -/
def split (separator text : List Char) : List (List Char) :=
  splitFrom separator 0 text

def join (separator : List Char) (pieces : List (List Char)) : List Char :=
  separator.intercalate pieces

/-- The text with every occurrence of a word replaced by another, from left to right. -/
def replace (word replacement text : List Char) : List Char :=
  join replacement (split word text)

def contains (word : List Char) : List Char → Bool
  | [] => word.isEmpty
  | c :: rest => word.isPrefixOf (c :: rest) || contains word rest

/-- The parts of a text before and after the first occurrence of a character. -/
def cutFirst (c : Char) (text : List Char) : Option (List Char × List Char) :=
  match text.dropWhile (· != c) with
  | [] => none
  | _ :: after => some (text.takeWhile (· != c), after)

/-- The parts of a text before and after the last occurrence of a character. -/
def cutLast (c : Char) (text : List Char) : Option (List Char × List Char) :=
  (cutFirst c text.reverse).map fun (after, before) => (before.reverse, after.reverse)

/-! ## Laws -/

theorem splitFrom_ne_nil (separator : List Char) (skip : Nat) (text : List Char) :
    splitFrom separator skip text ≠ [] := by
  induction text generalizing skip with
  | nil => simp [splitFrom]
  | cons c rest ih =>
    cases skip with
    | succ skip => simpa [splitFrom] using ih skip
    | zero =>
      rw [splitFrom]
      split
      · simp
      · cases splitFrom separator 0 rest <;> simp [consFirst]

theorem split_ne_nil (separator text : List Char) : split separator text ≠ [] :=
  splitFrom_ne_nil separator 0 text

theorem join_consFirst (separator : List Char) (c : Char) {pieces : List (List Char)}
    (h : pieces ≠ []) : join separator (consFirst c pieces) = c :: join separator pieces := by
  cases pieces with
  | nil => exact absurd rfl h
  | cons piece pieces => cases pieces <;> simp [consFirst, join, List.intercalate]

theorem join_nil_cons (separator : List Char) {pieces : List (List Char)} (h : pieces ≠ []) :
    join separator ([] :: pieces) = separator ++ join separator pieces := by
  cases pieces with
  | nil => exact absurd rfl h
  | cons piece pieces => simp [join, List.intercalate]

/-- Splitting after `skip` characters gives the pieces of the rest. -/
theorem splitFrom_skip (separator : List Char) (skip : Nat) (text : List Char) :
    splitFrom separator skip text = split separator (text.drop skip) := by
  induction text generalizing skip with
  | nil => simp [split, splitFrom]
  | cons c rest ih =>
    cases skip with
    | zero => rfl
    | succ skip => simpa [splitFrom] using ih skip

/-- **Nothing is lost by splitting.**  Joining the pieces with the separator gives the text
back. -/
theorem join_split {separator : List Char} (h : separator ≠ []) (text : List Char) :
    join separator (split separator text) = text := by
  suffices bounded : ∀ n, text.length ≤ n → join separator (split separator text) = text from
    bounded text.length (Nat.le_refl _)
  intro n
  induction n generalizing text with
  | zero =>
    intro short
    have : text = [] := List.length_eq_zero_iff.1 (Nat.le_zero.1 short)
    subst this
    simp [split, splitFrom, join]
  | succ n ih =>
    intro short
    cases text with
    | nil => simp [split, splitFrom, join]
    | cons c rest =>
      have shorter : rest.length ≤ n := by simpa using short
      rw [split, splitFrom]
      split
      · rename_i found
        obtain ⟨after, hafter⟩ := List.isPrefixOf_iff_prefix.1 found
        rw [join_nil_cons _ (splitFrom_ne_nil _ _ _), splitFrom_skip, ih _ (by simp; omega)]
        cases separator with
        | nil => exact absurd rfl h
        | cons s ss =>
          simp only [List.cons_append, List.cons.injEq] at hafter
          simp [← hafter.2, hafter.1]
      · rw [join_consFirst _ _ (splitFrom_ne_nil _ _ _)]
        exact congrArg (c :: ·) (ih rest shorter)

end BenchCover.Text
