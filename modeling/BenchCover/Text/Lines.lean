/-!
# Lines

Cutting a sequence into lines.  A line ends at a newline, and one carriage return in front of the
newline is no part of the line either; what follows the last newline is a line of its own unless
it is empty.  The rule is the same for a text, which is a sequence of characters, and for the
bytes of a file, so it is written once for any kind of element.

`lines_append_newline` is the rule itself: the line up to the first newline comes first, and the
lines of the rest follow it.
-/

namespace BenchCover.Text

structure LineEnd (α : Type) where
  newline : α
  carriageReturn : α

def LineEnd.characters : LineEnd Char := ⟨'\n', '\r'⟩

/-- The line ends of the bytes of a text in UTF-8, in which no other character has these bytes. -/
def LineEnd.bytes : LineEnd UInt8 := ⟨10, 13⟩

variable {α : Type} [DecidableEq α]

/-- The line whose elements, last one first, were met before a newline. -/
def closeLine (ends : LineEnd α) : List α → List α
  | [] => []
  | c :: before => if c = ends.carriageReturn then before.reverse else (c :: before).reverse

/-- The lines of a sequence, of whose first line the elements `line`, last one first, were met
already. -/
def linesFrom (ends : LineEnd α) (line : List α) : List α → List (List α)
  | [] => if line.isEmpty then [] else [line.reverse]
  | c :: rest =>
    if c = ends.newline then closeLine ends line :: linesFrom ends [] rest
    else linesFrom ends (c :: line) rest

/-- **The lines of a sequence**, without the elements that end them. -/
def lines (ends : LineEnd α) (sequence : List α) : List (List α) :=
  linesFrom ends [] sequence

/-! ## Laws -/

@[simp] theorem lines_nil (ends : LineEnd α) : lines ends [] = [] := rfl

theorem linesFrom_append_newline (ends : LineEnd α) {line : List α} (met rest : List α)
    (h : ends.newline ∉ line) :
    linesFrom ends met (line ++ ends.newline :: rest) =
      closeLine ends (line.reverse ++ met) :: lines ends rest := by
  induction line generalizing met with
  | nil => simp [linesFrom, lines]
  | cons c line ih =>
    have hc : c ≠ ends.newline := fun e => h (by simp [e])
    have hline : ends.newline ∉ line := fun m => h (List.mem_cons_of_mem _ m)
    simp [linesFrom, hc, ih (c :: met) hline]

/-- **The line up to the first newline comes first.** -/
theorem lines_append_newline (ends : LineEnd α) {line : List α} (rest : List α)
    (h : ends.newline ∉ line) :
    lines ends (line ++ ends.newline :: rest) =
      closeLine ends line.reverse :: lines ends rest := by
  simpa [lines] using linesFrom_append_newline ends [] rest h

end BenchCover.Text
