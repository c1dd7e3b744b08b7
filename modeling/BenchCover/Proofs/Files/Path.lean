import BenchCover.Files.Path
import BenchCover.Proofs.Text.Pieces
import Mathlib.Data.List.Basic
import Mathlib.Tactic.Lemma

/-!
# The parts of paths

Cutting at a character goes piece by piece.  So the parts of a path into a directory are those of the
directory and then those of the name (`Path.parts_join`), up to the blank part behind a slash at the
end of the directory.
-/

namespace BenchCover

/-! ## Texts -/

namespace Text

variable {c x : Char} {l rest : List Char}

/-- What has no separator and stands at the end is added to the last piece. -/
lemma exists_split_append (c : Char) (l : List Char) :
    ∃ front piece, ∀ ending, c ∉ ending → split [c] (l ++ ending) = front ++ [piece ++ ending] := by
  induction l with
  | nil => exact ⟨[], [], fun ending h => split_of_notMem h⟩
  | cons x l ih =>
    obtain ⟨front, piece, hsplit⟩ := ih
    by_cases hx : x = c
    · subst hx
      refine ⟨[] :: front, piece, fun ending h => ?_⟩
      rw [List.cons_append, split_cons_self, hsplit ending h]
      rfl
    · cases front with
      | nil =>
        refine ⟨[], x :: piece, fun ending h => ?_⟩
        rw [List.cons_append, split_cons_of_ne hx, hsplit ending h]
        rfl
      | cons first front =>
        refine ⟨(x :: first) :: front, piece, fun ending h => ?_⟩
        rw [List.cons_append, split_cons_of_ne hx, hsplit ending h]
        rfl

end Text

/-! ## Paths -/

namespace Path

variable {directory name : String}

/-- A name without slashes. -/
def IsName (name : String) : Prop :=
  '/' ∉ name.toList

instance (name : String) : Decidable (IsName name) :=
  inferInstanceAs (Decidable ('/' ∉ name.toList))

lemma parts_of_isName (h : IsName name) : parts name = [name] := by
  rw [parts, Text.split_of_notMem h, List.map_singleton, String.ofList_toList]

lemma parts_ne_nil (path : String) : parts path ≠ [] := by
  rw [parts, Ne, List.map_eq_nil_iff]
  exact Text.split_ne_nil _ _

/-- **The parts of a path into a directory.** -/
lemma parts_join (h : directory ≠ "") (name : String) :
    ∃ front, parts (join directory name) = front ++ parts name ∧
      (parts directory = front ∨ parts directory = front ++ [""]) ∧
      isAbsolute (join directory name) = isAbsolute directory := by
  have hlist : directory.toList ≠ [] := fun hnil => h (String.toList_eq_nil_iff.1 hnil)
  obtain ⟨start, last, hdirectory⟩ : ∃ start last, directory.toList = start ++ [last] :=
    ⟨_, _, (List.dropLast_append_getLast hlist).symm⟩
  have habsolute : ∀ more : String, isAbsolute (directory ++ more) = isAbsolute directory := by
    intro more
    rw [isAbsolute, isAbsolute, String.toList_append, List.head?_append_of_ne_nil _ hlist]
  by_cases hslash : last = '/'
  · subst hslash
    have hjoin : join directory name = directory ++ name := by
      rw [join, hdirectory, List.getLast?_concat]
      rfl
    refine ⟨(Text.split ['/'] start).map String.ofList, ?_, Or.inr ?_, hjoin ▸ habsolute name⟩
    · rw [hjoin, parts, String.toList_append, hdirectory, List.append_assoc,
        List.singleton_append, Text.split_append_cons, List.map_append]
      rfl
    · rw [parts, hdirectory, Text.split_append_cons, List.map_append]
      rfl
  · have hjoin : join directory name = directory ++ "/" ++ name := by
      rw [join, hdirectory, List.getLast?_concat]
      split
      · simp_all
      · simp_all
      · rfl
    refine ⟨parts directory, ?_, Or.inl rfl, ?_⟩
    · rw [hjoin, parts, String.toList_append, String.toList_append, List.append_assoc]
      exact (congrArg (List.map String.ofList) (Text.split_append_cons _ _ _)).trans List.map_append
    · rw [hjoin, String.append_assoc]
      exact habsolute _

lemma suffix_join (directory name : String) : name.toList <:+ (join directory name).toList := by
  rw [join]
  split
  · exact List.suffix_refl _
  · exact ⟨_, String.toList_append.symm⟩
  · exact ⟨_, String.toList_append.symm⟩

/-- **A longer path into the same directory** has a longer last part. -/
lemma exists_getLast?_append (stem : String) : ∃ last : String, ∀ ending, IsName ending →
    (parts (stem ++ ending)).getLast? = some (last ++ ending) := by
  obtain ⟨front, piece, hsplit⟩ := Text.exists_split_append '/' stem.toList
  refine ⟨String.ofList piece, fun ending hending => ?_⟩
  rw [parts, String.toList_append, hsplit ending.toList hending, List.map_append,
    List.map_singleton, List.getLast?_concat, String.ofList_append, String.ofList_toList]

/-- The last part of a path ends as the path does, if there is no slash in that end. -/
lemma exists_parts_concat {ending : List Char} (h : '/' ∉ ending) {path : String}
    (hpath : ending <:+ path.toList) :
    ∃ front last, parts path = front ++ [last] ∧ ending <:+ last.toList := by
  obtain ⟨start, hstart⟩ := hpath
  obtain ⟨front, piece, hsplit⟩ := Text.exists_split_append '/' start
  refine ⟨front.map String.ofList, String.ofList (piece ++ ending), ?_, ?_⟩
  · rw [parts, ← hstart, hsplit ending h, List.map_append, List.map_singleton]
  · rw [String.toList_ofList]
    exact List.suffix_append piece ending

/-- What is added to a name is added to the path into a directory. -/
lemma join_append (directory name more : String) :
    join directory (name ++ more) = join directory name ++ more := by
  rw [join, join]
  split
  · rfl
  · rw [← String.append_assoc]
  · rw [← String.append_assoc]

/-- **A path into a directory** ends in the name. -/
lemma finalName?_join (directory : String) (hname : IsName name)
    (hproper : name ≠ "" ∧ name ≠ "." ∧ name ≠ "..") :
    finalName? (join directory name) = some name := by
  obtain ⟨front, hparts⟩ : ∃ front, parts (join directory name) = front ++ [name] := by
    by_cases hdirectory : directory = ""
    · subst hdirectory
      exact ⟨[], parts_of_isName hname⟩
    · obtain ⟨front, hjoin, -⟩ := parts_join hdirectory name
      exact ⟨front, by rw [hjoin, parts_of_isName hname]⟩
  have hkept : [name].filter (fun part => part ≠ "" && part ≠ ".") = [name] := by
    simp [hproper.1, hproper.2.1]
  rw [finalName?, hparts, List.filter_append, hkept, List.getLast?_concat]
  exact if_neg hproper.2.2

end Path

end BenchCover
