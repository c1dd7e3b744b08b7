import BenchCover.Proofs.Files.Receiving

/-!
# Writing to files that take output

What opening and writing come to where a path takes output: a file is put, and nothing else happens.

**Bytes.**  The bytes of rows one behind the other are those of all of them (`bytesOf_append`).

**Trees.**  Opening puts the file that is there, or an empty one (`Receives.openOutput_eq`), and writing
a report puts its rows behind what the file holds (`FileTree.write_eq`).  What a file holds is what was
put there last, whatever was put elsewhere (`Receives.content_putFile`,
`Receives.content_putFile_of_ne`).  A file that is blocked is not opened (`Blocks.openOutput_eq`).
-/

namespace BenchCover

/-! ## Bytes -/

namespace Text

lemma toList_loop (bytes : ByteArray) (i : ℕ) (read : List UInt8) :
    ByteArray.toList.loop bytes i read = read.reverse ++ bytes.data.toList.drop i := by
  fun_induction ByteArray.toList.loop bytes i read with
  | case1 i read hless ih =>
    have hinside : i < bytes.data.size := hless
    rw [ih, List.reverse_cons, List.append_assoc, ByteArray.get!, getElem!_pos bytes.data i hinside,
      ← Array.getElem_toList, List.singleton_append, ← List.drop_eq_getElem_cons]
  | case2 i read hless =>
    have houtside : bytes.data.toList.length ≤ i := Nat.not_lt.1 hless
    rw [List.drop_eq_nil_of_le houtside, List.append_nil]

lemma toUTF8_append (a b : String) :
    (a ++ b).toUTF8.toList = a.toUTF8.toList ++ b.toUTF8.toList := by
  have hbytes : ∀ s : String, s.toUTF8.toList = s.toUTF8.data.toList := fun s => toList_loop _ 0 []
  rw [hbytes, hbytes, hbytes]
  simp [String.toUTF8]

end Text

/-- **The bytes of rows** as they are written. -/
def bytesOf (rows : List Row) : List UInt8 :=
  (String.ofList (rows.flatMap Row.encode)).toUTF8.toList

lemma bytesOf_append (rows rows' : List Row) :
    bytesOf (rows ++ rows') = bytesOf rows ++ bytesOf rows' := by
  rw [bytesOf, List.flatMap_append, String.ofList_append, Text.toUTF8_append]
  rfl

lemma bytesOf_nil : bytesOf [] = [] :=
  List.self_eq_append_left.1 (bytesOf_append [] [])

lemma bytesOf_singleton (row : Row) :
    bytesOf [row] = (String.ofList row.encode).toUTF8.toList := by
  rw [bytesOf, List.flatMap_singleton]

namespace FileTree

variable {tree : FileTree} {place other : Location} {path path' : String} {before bytes : List UInt8}

/-! ## Writing -/

lemma writeRows_eq (hinside : place ≠ []) (tree : FileTree) (before : List UInt8)
    (rows : List Row) : (tree.set place (.file before)).writeRows place rows
      = (tree.set place (.file (before ++ bytesOf rows)), none) := by
  induction rows generalizing before with
  | nil => rw [writeRows, bytesOf_nil, List.append_nil]
  | cons row rest ih =>
    have hthere : (tree.set place (.file before)).get? place = some (.file before) := by
      rw [get?_set hinside, if_pos rfl]
    rw [writeRows, appendBytes, hthere]
    simp only
    rw [set_set, ih, ← bytesOf_singleton, List.append_assoc, ← bytesOf_append,
      List.singleton_append]

/-- **Writing a report** puts its rows behind what the file holds. -/
lemma write_eq (hinside : place ≠ []) (tree : FileTree) (before : List UInt8) (report : Report) :
    (tree.set place (.file before)).write place report
      = (tree.set place (.file (before ++ bytesOf report.rows)), report.fault) := by
  rw [write, writeRows_eq hinside]
  rfl

/-! ## What files hold -/

/-- What the file holds that a path leads to: nothing if it is not there yet. -/
def content (tree : FileTree) (path : String) : List UInt8 :=
  match tree.walk .writing path with
  | .ok (.present _ (.file bytes)) => bytes
  | _ => []

namespace Receives

lemma content_eq (h : tree.Receives path place) (hbytes : tree.get? place = some (.file bytes)) :
    tree.content path = bytes := by
  rcases h.walk_cases with ⟨-, hnone⟩ | ⟨before, hwalk, hbefore⟩
  · cases hnone.symm.trans hbytes
  · cases hbefore.symm.trans hbytes
    rw [content, hwalk]

/-- **Opening a file that takes output** puts what it holds, or nothing if the output is to be
fresh. -/
lemma openOutput_eq (h : tree.Receives path place) (fresh : Bool) :
    tree.openOutput path fresh
      = .ok (tree.set place (.file (if fresh then [] else tree.content path)), place) := by
  rcases h.walk_cases with ⟨hwalk, -⟩ | ⟨before, hwalk, hbefore⟩
  · have hcontent : tree.content path = [] := by rw [content, hwalk]
    rw [openOutput, hwalk, hcontent, ite_self]
    rfl
  · rw [openOutput, hwalk, h.content_eq hbefore]
    cases fresh with
    | true => rfl
    | false =>
      rw [if_neg Bool.false_ne_true, set_self h.inside hbefore]
      rfl

/-- A file holds what was put there. -/
lemma content_putFile (h : tree.Receives path place) (bytes : List UInt8) :
    (tree.putFile path bytes).content path = bytes := by
  have hputs := h.putsFile_putFile bytes
  exact (hputs.receives h).content_eq hputs.there

/-- A file holds what it held before, whatever is put elsewhere. -/
lemma content_putFile_of_ne (h : tree.Receives path place) (h' : tree.Receives path' other)
    (hne : other ≠ place) (bytes : List UInt8) :
    (tree.putFile path bytes).content path' = tree.content path' := by
  have hputs := h.putsFile_putFile bytes
  have hafter := hputs.receives h'
  rcases hafter.walk_cases with ⟨hwalk, hnone⟩ | ⟨before, -, hbefore⟩
  · rw [hputs.elsewhere other hne] at hnone
    rcases h'.walk_cases with ⟨hwalk', -⟩ | ⟨before, -, hbefore⟩
    · rw [content, content, hwalk, hwalk']
    · cases hnone.symm.trans hbefore
  · rw [hafter.content_eq hbefore, h'.content_eq (hputs.elsewhere other hne ▸ hbefore)]

end Receives

/-- **A blocked file is not opened.** -/
lemma Blocks.openOutput_eq (h : tree.Blocks path) (fresh : Bool) :
    tree.openOutput path fresh = .error .isADirectory := by
  obtain ⟨directory, hwalk⟩ := h
  rw [openOutput, hwalk]
  rfl

end FileTree

end BenchCover
