import BenchCover.Function.Basic
import BenchCover.Text.Pieces

/-!
# Projects and exclusions

Which functions belong to the project under study is told by the prefixes of their names.
Analyses leave functions out by an exclusion, a test of a function and, inside a walk, of the level
at which it was met.
-/

namespace BenchCover

/-- **The prefixes of the names of project functions.**  A function belongs to the project if its
name starts with one of them; the empty prefix takes in every function. -/
structure ProjectPrefixes where
  prefixes : List String
  deriving DecidableEq, Repr

namespace ProjectPrefixes

/-- Reads prefixes that are separated by commas.  Each is kept as it stands, blanks included, so
that the empty text gives the empty prefix. -/
def parse (text : String) : ProjectPrefixes :=
  ⟨(Text.split [','] text.toList).map String.ofList⟩

def covers (projects : ProjectPrefixes) (name : String) : Bool :=
  projects.prefixes.any fun start => start.toList.isPrefixOf name.toList

def joined (projects : ProjectPrefixes) : String :=
  ",".intercalate projects.prefixes

/-- Whether there are no prefixes at all, so that no function belongs to the project. -/
def isEmpty (projects : ProjectPrefixes) : Bool :=
  projects.prefixes.isEmpty

end ProjectPrefixes

/-- **A test for functions to leave out.**  The level is the distance at which a walk met the
function, and there is none outside of walks. -/
structure Exclusion where
  excludes : Function → (level : Option Nat) → Bool

namespace Exclusion

def nothing : Exclusion :=
  ⟨fun _ _ => false⟩

def ofProjects (projects : ProjectPrefixes) : Exclusion :=
  ⟨fun f _ => projects.covers f.name⟩

/-- Leaves out what the exclusion keeps, and keeps what it leaves out. -/
def negate (e : Exclusion) : Exclusion :=
  ⟨fun f level => !e.excludes f level⟩

def both (a b : Exclusion) : Exclusion :=
  ⟨fun f level => a.excludes f level && b.excludes f level⟩

def either (a b : Exclusion) : Exclusion :=
  ⟨fun f level => a.excludes f level || b.excludes f level⟩

end Exclusion

end BenchCover
