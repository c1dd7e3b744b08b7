import BenchCover.Profile.RenderConfig
import BenchCover.Proofs.Number.Literal
import BenchCover.Proofs.Text.Pieces
import Mathlib.Algebra.Ring.Parity

/-!
# File names that are taken apart again

The name of a file is a base, a separator of two marks, and the settings.  Separators are found from
the left, so that marks at the end of the base go off in pairs before the separator is met.

* An even number of marks leaves the separator whole, and the name is taken apart where it was put
  together: `FileName.parse_of_separable`.
* An odd number of marks takes one of the separator.  The mark that is left over stands in front of
  the number of nodes, which is then none: `FileName.parse_of_not_separable`.

Nothing else matters, since no setting has two marks in a row: `split_suffix`.
-/

namespace BenchCover

namespace Text

variable {a b front back text : List Char} {c : Char}

/-! ## Pairs of marks -/

/-- How many marks a text ends with. -/
def marksAtEnd (text : List Char) : ℕ :=
  (text.reverse.takeWhile (· = '_')).length

lemma marksAtEnd_le (text : List Char) : marksAtEnd text ≤ text.length := by
  exact (List.takeWhile_sublist _).length_le.trans_eq List.length_reverse

lemma marksAtEnd_cons (c : Char) (text : List Char) : marksAtEnd (c :: text)
    = if marksAtEnd text = text.length then text.length + (if c = '_' then 1 else 0)
      else marksAtEnd text := by
  rw [marksAtEnd, List.reverse_cons, List.takeWhile_append, List.length_reverse, ← marksAtEnd]
  split_ifs with hall hmark
  · simp [hmark]
  · simp [hmark]
  · rfl

lemma marksAtEnd_cons_of_ne (hc : c ≠ '_') (text : List Char) :
    marksAtEnd (c :: text) = marksAtEnd text := by
  rw [marksAtEnd_cons]
  split_ifs with hall
  · exact hall.symm
  · rfl

/-- A mark in front of another character is not at the end. -/
lemma marksAtEnd_mark_cons (hc : c ≠ '_') (text : List Char) :
    marksAtEnd ('_' :: c :: text) = marksAtEnd (c :: text) := by
  have hle := marksAtEnd_le text
  rw [marksAtEnd_cons, if_neg]
  rw [marksAtEnd_cons_of_ne hc, List.length_cons]
  omega

lemma even_marksAtEnd_pair (text : List Char) :
    Even (marksAtEnd ('_' :: '_' :: text)) ↔ Even (marksAtEnd text) := by
  rw [marksAtEnd_cons, marksAtEnd_cons]
  by_cases hall : marksAtEnd text = text.length
  · simp [hall, Nat.even_add_one]
  · have hlt := lt_of_le_of_ne (marksAtEnd_le text) hall
    rw [if_neg hall, if_neg (by rw [List.length_cons]; omega)]

/-! ## Splitting at pairs of marks -/

/-- The separator of the settings. -/
def pair : List Char := ['_', '_']

lemma split_pair (text : List Char) : split pair ('_' :: '_' :: text) = [] :: split pair text := rfl

lemma split_pair_cons (hc : c ≠ '_') (text : List Char) :
    split pair (c :: text) = consFirst c (split pair text) :=
  split_cons fun hbegins => hc (List.cons_prefix_cons.1 hbegins).1.symm

lemma split_pair_mark_cons (hc : c ≠ '_') (text : List Char) :
    split pair ('_' :: c :: text) = consFirst '_' (split pair (c :: text)) :=
  split_cons fun hbegins =>
    hc (List.cons_prefix_cons.1 (List.cons_prefix_cons.1 hbegins).2).1.symm

/-- **A separator is met whole** if an even number of marks stands in front of it. -/
theorem split_append : ∀ (a b : List Char), Even (marksAtEnd a) →
    split pair (a ++ pair ++ b) = split pair a ++ split pair b
  | [], b, _ => split_pair b
  | [c], b, heven => by
    have hc : c ≠ '_' := by
      rintro rfl
      exact absurd heven (by decide)
    rw [List.append_assoc, List.singleton_append, split_pair_cons hc, split_pair_cons hc]
    rfl
  | c :: d :: rest, b, heven => by
    by_cases hc : c = '_'
    · subst hc
      by_cases hd : d = '_'
      · subst hd
        rw [even_marksAtEnd_pair] at heven
        rw [List.cons_append, List.cons_append, List.cons_append, List.cons_append, split_pair,
          split_pair, split_append rest b heven, List.cons_append]
      · rw [marksAtEnd_mark_cons hd] at heven
        have ih := split_append (d :: rest) b heven
        simp only [List.cons_append] at ih ⊢
        rw [split_pair_mark_cons hd, split_pair_mark_cons hd, ih,
          consFirst_append (split_ne_nil _ _)]
    · rw [marksAtEnd_cons_of_ne hc] at heven
      have ih := split_append (d :: rest) b heven
      simp only [List.cons_append] at ih ⊢
      rw [split_pair_cons hc, split_pair_cons hc, ih, consFirst_append (split_ne_nil _ _)]

/-- A text with a single mark is one piece. -/
lemma split_pair_single (hfront : '_' ∉ front) (hback : '_' ∉ back) :
    split pair (front ++ '_' :: back) = [front ++ '_' :: back] := by
  induction front with
  | nil =>
    cases back with
    | nil => rfl
    | cons c rest =>
      rw [List.nil_append, split_pair_mark_cons (List.ne_of_not_mem_cons hback).symm, pair,
        split_of_notMem hback]
      rfl
  | cons c rest ih =>
    rw [List.cons_append, split_pair_cons (List.ne_of_not_mem_cons hfront).symm,
      ih (List.not_mem_of_not_mem_cons hfront)]
    rfl

lemma marksAtEnd_append (hback : '_' ∉ back) (hne : back ≠ []) :
    marksAtEnd (front ++ back) = 0 := by
  have hreverse : '_' ∉ back.reverse := by simpa using hback
  obtain ⟨last, others, hlast⟩ := List.exists_cons_of_ne_nil (mt List.reverse_eq_nil_iff.1 hne)
  rw [hlast] at hreverse
  rw [marksAtEnd, List.reverse_append, hlast, List.cons_append, List.takeWhile_cons_of_neg,
    List.length_nil]
  simpa using (List.ne_of_not_mem_cons hreverse).symm

lemma marksAtEnd_of_notMem (htext : '_' ∉ text) : marksAtEnd text = 0 := by
  by_cases hne : text = []
  · rw [hne]
    rfl
  · exact (marksAtEnd_append htext hne : marksAtEnd ([] ++ text) = 0)

/-- Of an odd number of marks at the end, all but one are an even number. -/
lemma exists_mark_at_end (hodd : ¬ Even (marksAtEnd text)) :
    ∃ front, text = front ++ ['_'] ∧ Even (marksAtEnd front) := by
  rcases List.eq_nil_or_concat text with rfl | ⟨front, last, rfl⟩
  · exact absurd Even.zero hodd
  · rw [List.concat_eq_append] at hodd ⊢
    by_cases hlast : last = '_'
    · subst hlast
      have hnext : marksAtEnd (front ++ ['_']) = marksAtEnd front + 1 := by
        simp [marksAtEnd]
      rw [hnext, Nat.even_add_one, not_not] at hodd
      exact ⟨front, rfl, hodd⟩
    · have hzero : marksAtEnd (front ++ [last]) = 0 :=
        marksAtEnd_append (by simpa using Ne.symm hlast) (List.cons_ne_nil _ _)
      exact absurd (hzero ▸ Even.zero) hodd

end Text

open Text

/-! ## Fractions in file names -/

namespace RenderConfig

variable {text : List Char}

/-- A fraction as it stands in a file name. -/
def fractionPiece (x : Binary64) : List Char :=
  withoutPoints (x.fixed fractionPlaces)

lemma withoutPoints_of_notMem (htext : '.' ∉ text) : withoutPoints text = text := by
  have hsame : ∀ c ∈ text, (if c = '.' then '_' else c) = c := by
    intro c hc
    exact if_neg fun hpoint : c = '.' => htext (hpoint ▸ hc)
  rw [withoutPoints, List.map_congr_left hsame, List.map_id']

lemma withPoints_withoutPoints (htext : '_' ∉ text) :
    FileName.withPoints (withoutPoints text) = text := by
  rw [FileName.withPoints, withoutPoints, List.map_map]
  have hsame : ∀ c ∈ text, (if (if c = '.' then '_' else c) = '_' then '.'
      else if c = '.' then '_' else c) = c := by
    intro c hc
    have hmark : c ≠ '_' := fun hmark => htext (hmark ▸ hc)
    by_cases hpoint : c = '.'
    · rw [if_pos (if_pos hpoint), hpoint]
    · rw [if_neg (by rwa [if_neg hpoint]), if_neg hpoint]
  exact (List.map_congr_left hsame).trans (List.map_id' text)

/-- **A written fraction** is a word, or digits around a point, perhaps behind a sign. -/
lemma fixed_cases (x : Binary64) :
    ('_' ∉ x.fixed fractionPlaces ∧ '.' ∉ x.fixed fractionPlaces) ∨
      ∃ front back : List Char, x.fixed fractionPlaces = front ++ '.' :: back ∧
        ('_' ∉ front ∧ '.' ∉ front) ∧ ('_' ∉ back ∧ '.' ∉ back) ∧ back ≠ [] := by
  have hdigits : ∀ {digits : List Char}, (∀ c ∈ digits, c.isDigit = true) →
      '_' ∉ digits ∧ '.' ∉ digits := by
    intro digits h
    constructor <;> intro hmem <;> exact absurd (h _ hmem) (by decide)
  cases x with
  | nan => exact Or.inl (by decide)
  | infinite negative => cases negative <;> exact Or.inl (by decide)
  | finite negative units representable =>
    obtain ⟨whole, fraction, htext, hne, hwhole, hfraction, hlength, -⟩ :=
      Binary64.placePoint_eq fractionPlaces (roundEven (units * 10 ^ fractionPlaces) unitsPerOne)
    refine Or.inr ⟨Binary64.signed negative whole, fraction, ?_, ?_, hdigits hfraction, ?_⟩
    · rw [Binary64.fixed, htext]
      cases negative <;> rfl
    · cases negative with
      | false => exact hdigits hwhole
      | true => simpa [Binary64.signed] using hdigits hwhole
    · exact List.ne_nil_of_length_pos ((hlength (by decide)).symm ▸ by decide)

lemma mark_notMem_fixed (x : Binary64) : '_' ∉ x.fixed fractionPlaces := by
  rcases fixed_cases x with ⟨hmark, -⟩ | ⟨front, back, htext, hfront, hback, -⟩
  · exact hmark
  · simp [htext, hfront.1, hback.1]

/-- A fraction that was written into a file name is read again. -/
lemma exists_readFraction (x : Binary64) :
    ∃ y, FileName.readFraction (fractionPiece x) = .ok y := by
  obtain ⟨y, hread⟩ := x.exists_read_fixed (show 0 < fractionPlaces by decide)
  refine ⟨y, ?_⟩
  rw [FileName.readFraction, fractionPiece, withPoints_withoutPoints (mark_notMem_fixed x), hread]

lemma fractionPiece_cases (x : Binary64) :
    '_' ∉ fractionPiece x ∨ ∃ front back : List Char, fractionPiece x = front ++ '_' :: back ∧
      '_' ∉ front ∧ '_' ∉ back ∧ back ≠ [] := by
  rcases fixed_cases x with ⟨hmark, hpoint⟩ | ⟨front, back, htext, hfront, hback, hne⟩
  · rw [fractionPiece, withoutPoints_of_notMem hpoint]
    exact Or.inl hmark
  · refine Or.inr ⟨front, back, ?_, hfront.1, hback.1, hne⟩
    have happend : withoutPoints (front ++ '.' :: back)
        = withoutPoints front ++ '_' :: withoutPoints back := List.map_append
    rw [fractionPiece, htext, happend, withoutPoints_of_notMem hfront.2,
      withoutPoints_of_notMem hback.2]

/-- A fraction and what stands behind it are one piece. -/
lemma split_fractionPiece (x : Binary64) {after : List Char} (hafter : '_' ∉ after) :
    split pair (fractionPiece x ++ after) = [fractionPiece x ++ after] := by
  rcases fractionPiece_cases x with hmark | ⟨front, back, htext, hfront, hback, -⟩
  · exact split_of_notMem (by simp [hmark, hafter])
  · rw [htext, List.append_assoc, List.cons_append]
    exact split_pair_single hfront (by simp [hback, hafter])

lemma marksAtEnd_fractionPiece (x : Binary64) : marksAtEnd (fractionPiece x) = 0 := by
  rcases fractionPiece_cases x with hmark | ⟨front, back, htext, -, hback, hne⟩
  · exact marksAtEnd_of_notMem hmark
  · rw [htext, ← List.singleton_append, ← List.append_assoc]
    exact marksAtEnd_append hback hne

/-! ## The settings -/

/-- The number of nodes as it stands in a file name. -/
def nodeCountPiece (config : RenderConfig) : List Char :=
  Nat.toDigits 10 config.nodeCount.toNat

/-- The last setting and the extension. -/
def lastPiece (config : RenderConfig) : List Char :=
  fractionPiece config.edgeFraction ++ '.' :: config.format.name.toList

lemma mark_notMem_nodeCountPiece (config : RenderConfig) : '_' ∉ config.nodeCountPiece :=
  fun hmark => absurd (isDigit_of_mem_toDigits hmark) (by decide)

lemma notMem_formatName (format : OutputFormat) :
    '_' ∉ format.name.toList ∧ '.' ∉ format.name.toList := by
  cases format <;> decide

lemma toList_suffix (config : RenderConfig) : config.suffix.toList
    = config.nodeCountPiece ++ pair ++
        (fractionPiece config.nodeFraction ++ pair ++ config.lastPiece) := by
  have hpoint : '.' ∉ config.nodeCountPiece := fun hpoint =>
    absurd (isDigit_of_mem_toDigits hpoint) (by decide)
  have hpair : withoutPoints settingSeparator.toList = pair := rfl
  have hdigits := withoutPoints_of_notMem hpoint
  simp only [suffix, String.toList_ofList, List.intercalate_cons_cons, List.intercalate_singleton]
  simp only [withoutPoints, List.map_append, List.append_assoc] at hpair hdigits ⊢
  rw [← nodeCountPiece, hdigits, hpair, lastPiece, fractionPiece, fractionPiece, withoutPoints]
  simp only [withoutPoints]

/-- **The settings of a file name are three pieces.** -/
theorem split_suffix (config : RenderConfig) : split pair config.suffix.toList
    = [config.nodeCountPiece, fractionPiece config.nodeFraction, config.lastPiece] := by
  have hcount : split pair config.nodeCountPiece = [config.nodeCountPiece] :=
    split_of_notMem config.mark_notMem_nodeCountPiece
  have hfraction : split pair (fractionPiece config.nodeFraction)
      = [fractionPiece config.nodeFraction] := by
    have hnil := split_fractionPiece config.nodeFraction List.not_mem_nil
    rwa [List.append_nil] at hnil
  have hlast : split pair config.lastPiece = [config.lastPiece] :=
    split_fractionPiece config.edgeFraction (by simp [(notMem_formatName config.format).1])
  rw [toList_suffix, split_append _ _ (by
      rw [marksAtEnd_of_notMem config.mark_notMem_nodeCountPiece]
      exact Even.zero),
    split_append _ _ (by
      rw [marksAtEnd_fractionPiece]
      exact Even.zero), hcount, hfraction, hlast]
  rfl

/-- **The settings of a file name are read again**, the fractions as they were written. -/
theorem exists_readConfig (config : RenderConfig) (fileName : String) :
    ∃ nodeFraction edgeFraction,
      FileName.readFraction (fractionPiece config.nodeFraction) = .ok nodeFraction ∧
      FileName.readFraction (fractionPiece config.edgeFraction) = .ok edgeFraction ∧
      FileName.readConfig fileName config.nodeCountPiece (fractionPiece config.nodeFraction)
          config.lastPiece = .ok { config with nodeFraction, edgeFraction } := by
  obtain ⟨nodeFraction, hnode⟩ := exists_readFraction config.nodeFraction
  obtain ⟨edgeFraction, hedge⟩ := exists_readFraction config.edgeFraction
  refine ⟨nodeFraction, edgeFraction, hnode, hedge, ?_⟩
  have hcount : Decimal.readUInt64 config.nodeCountPiece = .ok config.nodeCount :=
    Decimal.readUInt64_toDigits config.nodeCount
  have hcut : cutLast '.' config.lastPiece
      = some (fractionPiece config.edgeFraction, config.format.name.toList) :=
    cutLast_append (notMem_formatName config.format).2
  have hformat : FileName.readFormat (String.ofList config.format.name.toList)
      = .ok config.format := by
    rw [String.ofList_toList, FileName.readFormat, OutputFormat.ofName?_name]
  simp only [FileName.readConfig, hcount, hnode, hcut, hedge, hformat]
  rfl

end RenderConfig

/-! ## File names -/

namespace FileName

/-- **A base that can be told from what follows it**: an even number of marks stands at its end. -/
def Separable (base : String) : Prop :=
  Even (marksAtEnd base.toList)

instance (base : String) : Decidable (Separable base) :=
  inferInstanceAs (Decidable (Even (marksAtEnd base.toList)))

variable {fileName : String} {base nodeCount nodeFraction edge : List Char}

lemma parse_of_split (hsplit : split settingSeparator.toList fileName.toList
    = split pair base ++ [nodeCount, nodeFraction, edge]) :
    parse fileName = (readConfig fileName nodeCount nodeFraction edge).map
      fun config => ⟨String.ofList base, config⟩ := by
  obtain ⟨last, earlier, hreverse⟩ := List.exists_cons_of_ne_nil
    (mt List.reverse_eq_nil_iff.1 (split_ne_nil pair base))
  have hjoin : join settingSeparator.toList (last :: earlier).reverse = base := by
    rw [← hreverse, List.reverse_reverse]
    exact join_split (by decide) base
  have hparts : (split settingSeparator.toList fileName.toList).reverse
      = edge :: nodeFraction :: nodeCount :: last :: earlier := by
    rw [hsplit, List.reverse_append, hreverse]
    rfl
  simp only [parse, hparts, hjoin]
  cases readConfig fileName nodeCount nodeFraction edge <;> rfl

/-- **A separable base is found again**, and the settings are read again. -/
theorem parse_of_separable {base : String} (hbase : Separable base) (config : RenderConfig) :
    ∃ nodeFraction edgeFraction,
      readFraction (RenderConfig.fractionPiece config.nodeFraction) = .ok nodeFraction ∧
      readFraction (RenderConfig.fractionPiece config.edgeFraction) = .ok edgeFraction ∧
      parse (base ++ settingSeparator ++ config.suffix)
        = .ok ⟨base, { config with nodeFraction, edgeFraction }⟩ := by
  obtain ⟨nodeFraction, edgeFraction, hnode, hedge, hread⟩ :=
    config.exists_readConfig (base ++ settingSeparator ++ config.suffix)
  refine ⟨nodeFraction, edgeFraction, hnode, hedge, ?_⟩
  have hsplit : split settingSeparator.toList (base ++ settingSeparator ++ config.suffix).toList
      = split pair base.toList ++ [config.nodeCountPiece,
          RenderConfig.fractionPiece config.nodeFraction, config.lastPiece] := by
    rw [String.toList_append, String.toList_append, ← config.split_suffix]
    exact split_append base.toList config.suffix.toList hbase
  rw [parse_of_split hsplit, hread, String.ofList_toList]
  rfl

/-- **A base that is not separable takes a mark of the separator**, and the other one goes to the
number of nodes, which is refused. -/
theorem parse_of_not_separable {base : String} (hbase : ¬ Separable base)
    (config : RenderConfig) :
    parse (base ++ settingSeparator ++ config.suffix)
      = .error (.nodeCount (base ++ settingSeparator ++ config.suffix) .invalidDigit) := by
  obtain ⟨front, hfront, heven⟩ := exists_mark_at_end hbase
  obtain ⟨first, others, hfirst⟩ := List.exists_cons_of_ne_nil
    (Nat.toDigits_ne_nil : Nat.toDigits 10 config.nodeCount.toNat ≠ [])
  have hsplit : split settingSeparator.toList (base ++ settingSeparator ++ config.suffix).toList
      = split pair front ++ ['_' :: config.nodeCountPiece,
          RenderConfig.fractionPiece config.nodeFraction, config.lastPiece] := by
    have hlist : (base ++ settingSeparator ++ config.suffix).toList
        = front ++ pair ++ ('_' :: config.suffix.toList) := by
      rw [String.toList_append, String.toList_append, hfront, List.append_assoc, List.append_assoc,
        List.append_assoc]
      rfl
    have hmark : split pair ('_' :: config.suffix.toList)
        = consFirst '_' (split pair config.suffix.toList) := by
      have hdigit : first ≠ '_' := by
        rintro rfl
        refine config.mark_notMem_nodeCountPiece ?_
        rw [RenderConfig.nodeCountPiece, hfirst]
        exact List.mem_cons_self
      rw [RenderConfig.toList_suffix, RenderConfig.nodeCountPiece, hfirst]
      exact split_pair_mark_cons hdigit _
    rw [hlist]
    exact (split_append front _ heven).trans (by rw [hmark, config.split_suffix]; rfl)
  rw [parse_of_split hsplit]
  rfl

end FileName

end BenchCover
