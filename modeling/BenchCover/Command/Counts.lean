import BenchCover.Number.Decimal
import BenchCover.Text.Blank
import BenchCover.Text.Pieces

/-!
# Counts

The numbers of functions to recommend, as they are given on the command line: positive integers of
64 bits with commas between them.  Blank entries do not count.
-/

namespace BenchCover

inductive CountsFault where
  | notAnInteger (entry : String) (cause : IntegerFault)
  | notPositive (value : Int)
  deriving DecidableEq, Repr

def CountsFault.message : CountsFault → String
  | notAnInteger entry cause =>
    s!"Could not parse count '{entry}' as an integer: {cause.message}"
  | notPositive value => s!"Invalid count {value}: must be positive"

namespace Counts

/-- The entries of the text, without the blanks around them and without blank ones. -/
def entries (text : String) : List (List Char) :=
  ((Text.split [','] text.toList).map Text.trim).filter fun entry => !entry.isEmpty

def readEntry (entry : List Char) : Except CountsFault Nat :=
  match Decimal.readInt64 entry with
  | .error cause => .error (.notAnInteger (String.ofList entry) cause)
  | .ok value => if 0 < value then .ok value.toNat else .error (.notPositive value)

/-- **Reads counts.**  The first entry that is wrong counts. -/
def parse (text : String) : Except CountsFault (List Nat) :=
  (entries text).mapM readEntry

end Counts

end BenchCover
