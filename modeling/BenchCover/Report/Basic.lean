import BenchCover.Files.Fault
import BenchCover.Profile.RenderConfig

/-!
# Reports

A report is a table of text fields.  Fields are separated by semicolons and rows end in a newline;
a field that holds a separator, a quote or a line end is put into quotes, and the quotes inside it
are doubled.

Rows are made one after the other.  When one cannot be made, the report ends there: the rows before
it stand, and the fault tells why.
-/

namespace BenchCover

/-! ## Tables -/

abbrev Row := List String

namespace Row

def separator : Char := ';'

def quote : Char := '"'

def isSpecial (c : Char) : Bool :=
  c = separator || c = quote || c = '\n' || c = '\r'

def doubleQuotes (field : List Char) : List Char :=
  field.flatMap fun c => if c = quote then [quote, quote] else [c]

def encodeField (field : List Char) : List Char :=
  if field.any isSpecial then quote :: doubleQuotes field ++ [quote] else field

/-- **A row as it is written**, with the newline that ends it. -/
def encode (row : Row) : List Char :=
  [separator].intercalate (row.map fun field => encodeField field.toList) ++ ['\n']

end Row

def shareField (x : Binary64) : String := fractionText x

def natField (n : Nat) : String := toString n

/-- Whether only project functions were counted, in a report. -/
def boolField (b : Bool) : String := if b then "true" else "false"

/-! ## Faults -/

inductive ReportFault where
  | record (cause : FileFault)
  | flush (cause : FileFault)
  | microName (key : String) (cause : FileNameFault)
  deriving DecidableEq, Repr

def ReportFault.message : ReportFault → String
  | record cause => s!"Failed to write CSV record: {cause.message}"
  | flush cause => s!"Failed to flush CSV output: {cause.message}"
  | microName key cause => s!"Could not derive micro name from '{key}': {cause.message}"

/-! ## Reports -/

/-- **The rows of a report, and why there are no more of them.** -/
structure Report where
  rows : List Row
  fault : Option ReportFault

namespace Report

def ofRows (rows : List Row) : Report :=
  ⟨rows, none⟩

/-- The report that ends before its first row. -/
def refused (fault : ReportFault) : Report :=
  ⟨[], some fault⟩

/-- A report followed by another one, unless the first ends early. -/
def append (first second : Report) : Report :=
  match first.fault with
  | some _ => first
  | none => ⟨first.rows ++ second.rows, second.fault⟩

instance : Append Report := ⟨append⟩

def concat (reports : List Report) : Report :=
  reports.foldr append (ofRows [])

def text (report : Report) : String :=
  String.ofList (report.rows.flatMap Row.encode)

end Report

/-- The names of the columns, if they are asked for. -/
def headerRow (header : Bool) (columns : Row) : Report :=
  .ofRows (if header then [columns] else [])

end BenchCover
