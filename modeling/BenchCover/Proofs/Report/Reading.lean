import BenchCover.Report.Basic
import Mathlib.Tactic.Lemma
import Mathlib.Tactic.SplitIfs

/-!
# Reading reports

A reader that knows nothing of reports: fields end at separators and newlines, and a field that
starts with a quote goes on to the next quote that is not doubled.  It is as strict as such a reader
can be.  A quote inside a plain field, a return outside quotes, anything between a closing quote and
the end of the field, and a last row without a newline make it refuse the whole text.

`Reader.readRows_encode` says that it reads what is written.  A field that was put into quotes is
read up to its closing quote (`foldlM_doubleQuotes`), one that was not has nothing in it that the
reader stops at (`foldlM_plain`), and either way the reader is then at the end of the field
(`exists_foldlM_encodeField`).  Rows and tables follow by induction.
-/

namespace BenchCover

namespace Reader

/-- Where a reader is in a field. -/
inductive Place where
  | start
  | plain
  | quoted
  /-- Behind a quote inside quotes, which ends the field or is the first of two. -/
  | closed
  deriving DecidableEq, Repr

/-- What a reader has read: rows, fields of the next row, and characters of the next field. -/
structure State where
  place : Place
  field : List Char
  row : Row
  rows : List Row
  deriving DecidableEq, Repr

/-- In front of a row. -/
def between (rows : List Row) : State :=
  ⟨.start, [], [], rows⟩

namespace State

def endField (state : State) : State :=
  { state with place := .start, field := [], row := state.row ++ [String.ofList state.field] }

def endRow (state : State) : State :=
  between (state.rows ++ [state.endField.row])

def keep (state : State) (place : Place) (c : Char) : State :=
  { state with place, field := state.field ++ [c] }

end State

/-- **Reads a character**, unless the text is refused. -/
def step (state : State) (c : Char) : Option State :=
  match state.place with
  | .quoted => some (if c = Row.quote then { state with place := .closed } else state.keep .quoted c)
  | place =>
    if c = Row.separator then some state.endField
    else if c = '\n' then some state.endRow
    else if c = '\r' then none
    else if c = Row.quote then
      match place with
      | .start => some { state with place := .quoted }
      | .closed => some (state.keep .quoted c)
      | _ => none
    else if place = .closed then none
    else some (state.keep .plain c)

/-- **Reads a text** as a table. -/
def readRows (text : List Char) : Option (List Row) :=
  match text.foldlM step (between []) with
  | some state => if state = between state.rows then some state.rows else none
  | none => none

/-! ## Fields -/

variable {field : List Char} {row : Row} {rows : List Row} {place : Place} {state : State}

/-- A reader in a plain field keeps what is not special. -/
lemma foldlM_plain (hplain : ∀ c ∈ field, Row.isSpecial c = false) (read : List Char)
    (hplace : place = .start ∨ place = .plain) :
    ∃ place', (place' = .start ∨ place' = .plain) ∧
      field.foldlM step ⟨place, read, row, rows⟩ = some ⟨place', read ++ field, row, rows⟩ := by
  induction field generalizing place read with
  | nil => exact ⟨place, hplace, by simp⟩
  | cons c field ih =>
    have hc := hplain c List.mem_cons_self
    simp only [Row.isSpecial, Bool.or_eq_false_iff, decide_eq_false_iff_not] at hc
    obtain ⟨⟨⟨hseparator, hquote⟩, hnewline⟩, hreturn⟩ := hc
    have hstep : step ⟨place, read, row, rows⟩ c = some ⟨.plain, read ++ [c], row, rows⟩ := by
      rcases hplace with rfl | rfl <;>
        simp [step, hseparator, hquote, hnewline, hreturn, State.keep]
    obtain ⟨place', hplace', hfold⟩ := ih (fun c hc => hplain c (List.mem_cons_of_mem _ hc))
      (read ++ [c]) (Or.inr rfl)
    refine ⟨place', hplace', ?_⟩
    rw [List.foldlM_cons, hstep]
    simpa using hfold

/-- A reader inside quotes takes two quotes for one. -/
lemma foldlM_doubleQuotes (field read : List Char) (row : Row) (rows : List Row) :
    (Row.doubleQuotes field).foldlM step ⟨.quoted, read, row, rows⟩
      = some ⟨.quoted, read ++ field, row, rows⟩ := by
  induction field generalizing read with
  | nil => simp [Row.doubleQuotes]
  | cons c field ih =>
    have hc : (if c = Row.quote then [Row.quote, Row.quote] else [c]).foldlM step
        ⟨.quoted, read, row, rows⟩ = some ⟨.quoted, read ++ [c], row, rows⟩ := by
      by_cases hquote : c = Row.quote
      · subst hquote
        rfl
      · simp [step, hquote, State.keep]
    rw [Row.doubleQuotes, List.flatMap_cons, List.foldlM_append, hc, ← Row.doubleQuotes]
    simpa using ih (read ++ [c])

/-- **A field that was written is read**, up to its end. -/
lemma exists_foldlM_encodeField (field : List Char) (row : Row) (rows : List Row) :
    ∃ place, place ≠ .quoted ∧ (Row.encodeField field).foldlM step ⟨.start, [], row, rows⟩
      = some ⟨place, field, row, rows⟩ := by
  rw [Row.encodeField]
  split_ifs with hspecial
  · refine ⟨.closed, by decide, ?_⟩
    have hopen : step ⟨.start, [], row, rows⟩ Row.quote = some ⟨.quoted, [], row, rows⟩ := rfl
    have hclose : step ⟨.quoted, field, row, rows⟩ Row.quote = some ⟨.closed, field, row, rows⟩ := rfl
    rw [List.cons_append, List.foldlM_cons, hopen]
    show List.foldlM step _ (Row.doubleQuotes field ++ [Row.quote]) = _
    rw [List.foldlM_append, foldlM_doubleQuotes, List.nil_append]
    simpa using hclose
  · have hplain : ∀ c ∈ field, Row.isSpecial c = false := by simpa using hspecial
    obtain ⟨place, hplace, hfold⟩ := foldlM_plain hplain [] (Or.inl rfl)
    refine ⟨place, ?_, hfold⟩
    rcases hplace with rfl | rfl <;> decide

lemma step_separator (hplace : state.place ≠ .quoted) :
    step state Row.separator = some state.endField := by
  cases hstate : state.place <;> simp_all [step]

lemma step_newline (hplace : state.place ≠ .quoted) : step state '\n' = some state.endRow := by
  cases hstate : state.place <;> simp_all [step, Row.separator]

/-! ## Rows and tables -/

/-- **A row that was written is read.** -/
lemma foldlM_encode (hrow : row ≠ []) (read : Row) (rows : List Row) :
    (Row.encode row).foldlM step ⟨.start, [], read, rows⟩ = some (between (rows ++ [read ++ row])) := by
  induction row generalizing read with
  | nil => exact absurd rfl hrow
  | cons field rest ih =>
    obtain ⟨place, hplace, hfield⟩ := exists_foldlM_encodeField field.toList read rows
    cases rest with
    | nil =>
      have hend : step ⟨place, field.toList, read, rows⟩ '\n'
          = some (between (rows ++ [read ++ [String.ofList field.toList]])) := step_newline hplace
      rw [Row.encode, List.map_singleton, List.intercalate_singleton, List.foldlM_append, hfield]
      simpa using hend
    | cons other rest =>
      have hrest := ih (by simp) (read ++ [field])
      have hsplit : Row.encode (field :: other :: rest)
          = Row.encodeField field.toList ++ Row.separator :: Row.encode (other :: rest) := by
        simp [Row.encode, List.intercalate_cons_cons]
      rw [hsplit, List.foldlM_append, hfield]
      show List.foldlM step _ (Row.separator :: _) = _
      rw [List.foldlM_cons, step_separator hplace]
      simpa [State.endField] using hrest

lemma foldlM_flatMap_encode {table : List Row} (htable : ∀ row ∈ table, row ≠ [])
    (rows : List Row) :
    (table.flatMap Row.encode).foldlM step (between rows) = some (between (rows ++ table)) := by
  induction table generalizing rows with
  | nil => simp
  | cons row table ih =>
    rw [List.flatMap_cons, List.foldlM_append, between, foldlM_encode (htable row List.mem_cons_self)]
    simpa using ih (fun other hother => htable other (List.mem_cons_of_mem _ hother)) (rows ++ [row])

/-- **What was written is read**, if no row is empty. -/
theorem readRows_encode {table : List Row} (htable : ∀ row ∈ table, row ≠ []) :
    readRows (table.flatMap Row.encode) = some table := by
  rw [readRows, foldlM_flatMap_encode htable]
  simp [between]

end Reader

end BenchCover
