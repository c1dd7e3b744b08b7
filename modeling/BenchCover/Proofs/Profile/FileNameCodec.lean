import BenchCover.Proofs.Profile.FileName

/-!
# Names that are taken apart and put together

A name that is taken apart is its base, the texts that its settings were read from, and its
extension, with nothing of it lost: `FileName.exists_texts_of_parse`.  A name that was put together
from a base and a configuration is taken apart there, provided that the base is separable:
`FileName.codec_spec`.
-/

namespace BenchCover.FileName

open Text

variable {fileName : String} {file : FileName} {config : RenderConfig}
  {nodeCount nodeFraction edge : List Char}

/-! ## Taking names apart -/

/-- **The texts of a configuration**: the number of nodes, and the fractions with marks for their
points. -/
structure ReadsAs (config : RenderConfig) (nodeCount nodeFraction edgeFraction : String) :
    Prop where
  nodeCount_read : Decimal.readUInt64 nodeCount.toList = .ok config.nodeCount
  nodeFraction_read : Binary64.read (withPoints nodeFraction.toList) = .ok config.nodeFraction
  edgeFraction_read : Binary64.read (withPoints edgeFraction.toList) = .ok config.edgeFraction

lemma eq_name_of_readFormat {extension : String} {format : OutputFormat}
    (hread : readFormat extension = .ok format) : format.name = extension := by
  rw [readFormat] at hread
  cases hname : OutputFormat.ofName? extension with
  | none => simp [hname] at hread
  | some found =>
    rw [hname] at hread
    obtain rfl := Except.ok.inj hread
    simpa using List.find?_some hname

/-- **Settings that are read** are three texts and an extension. -/
lemma exists_text_of_readConfig
    (hread : readConfig fileName nodeCount nodeFraction edge = .ok config) :
    ∃ edgeFraction : String, edge = edgeFraction.toList ++ '.' :: config.format.name.toList ∧
      ReadsAs config (String.ofList nodeCount) (String.ofList nodeFraction) edgeFraction := by
  rw [readConfig] at hread
  cases hcount : Decimal.readUInt64 nodeCount with
  | error fault =>
    rw [hcount] at hread
    cases hread
  | ok count =>
  cases hnode : readFraction nodeFraction with
  | error fault =>
    rw [hcount, hnode] at hread
    cases hread
  | ok node =>
  cases hcut : cutLast '.' edge with
  | none =>
    rw [hcount, hnode, hcut] at hread
    cases hread
  | some parts =>
  obtain ⟨edgeFraction, extension⟩ := parts
  cases hedge : readFraction edgeFraction with
  | error fault =>
    simp only [hcount, hnode, hcut, hedge] at hread
    cases hread
  | ok last =>
  cases hformat : readFormat (String.ofList extension) with
  | error fault =>
    simp only [hcount, hnode, hcut, hedge, hformat] at hread
    cases hread
  | ok format =>
  simp only [hcount, hnode, hcut, hedge, hformat] at hread
  obtain rfl := Except.ok.inj hread
  have hname : format.name.toList = extension := by
    rw [eq_name_of_readFormat hformat, String.toList_ofList]
  refine ⟨String.ofList edgeFraction, ?_, ⟨?_, ?_, ?_⟩⟩
  · rw [String.toList_ofList, hname]
    exact (cutLast_eq_some_iff.1 hcut).1
  · rwa [String.toList_ofList]
  · rwa [String.toList_ofList]
  · rwa [String.toList_ofList]

/-- **Nothing of a name is lost** when it is taken apart. -/
theorem exists_texts_of_parse (hparse : parse fileName = .ok file) :
    ∃ nodeCount nodeFraction edgeFraction : String,
      fileName = file.base ++ "__" ++ nodeCount ++ "__" ++ nodeFraction ++ "__" ++ edgeFraction
        ++ "." ++ file.config.format.name ∧
      ReadsAs file.config nodeCount nodeFraction edgeFraction := by
  have hjoin : join settingSeparator.toList (split settingSeparator.toList fileName.toList)
      = fileName.toList := join_split (by decide) _
  simp only [parse] at hparse
  split at hparse
  case h_2 => cases hparse
  case h_1 edge nodeFraction nodeCount base earlier hparts =>
    cases hread : readConfig fileName nodeCount nodeFraction edge with
    | error fault =>
      rw [hread] at hparse
      cases hparse
    | ok config =>
      rw [hread] at hparse
      obtain rfl := Except.ok.inj hparse
      obtain ⟨edgeFraction, hedge, hreads⟩ := exists_text_of_readConfig hread
      refine ⟨_, _, edgeFraction, ?_, hreads⟩
      have hsplit : split settingSeparator.toList fileName.toList
          = (base :: earlier).reverse ++ [nodeCount, nodeFraction, edge] := by
        rw [← List.reverse_reverse (split _ _), hparts]
        simp
      rw [hsplit, join_append_of_ne_nil _ (by simp) (List.cons_ne_nil _ _), hedge] at hjoin
      apply String.toList_inj.1
      rw [← hjoin]
      simp [join, settingSeparator, String.toList_append]

/-! ## Putting names together -/

/-- A fraction is read from a name as from its text with five places. -/
lemma readFraction_fractionPiece (x : Binary64) :
    readFraction (RenderConfig.fractionPiece x) = Binary64.read (x.fixed 5) := by
  rw [readFraction, RenderConfig.fractionPiece,
    RenderConfig.withPoints_withoutPoints (RenderConfig.mark_notMem_fixed x)]
  rfl

/-- **File names and configurations.**  A name that is taken apart is its base, the texts that its
settings are read from and the name of its format.  A base that ends in an even number of marks is
found again in a name that was put together from it and a configuration, with the same number of
nodes and the same format, and with the fractions that are read from their texts with five places.
A base that ends in an odd number of marks makes the number of nodes unreadable. -/
theorem codec_spec :
    (∀ (fileName : String) (file : FileName), parse fileName = .ok file →
      ∃ nodeCount nodeFraction edgeFraction : String,
        fileName = file.base ++ "__" ++ nodeCount ++ "__" ++ nodeFraction ++ "__" ++ edgeFraction
          ++ "." ++ file.config.format.name ∧
        ReadsAs file.config nodeCount nodeFraction edgeFraction) ∧
    (∀ (base : String) (config : RenderConfig), Even (marksAtEnd base.toList) →
      ∃ nodeFraction edgeFraction : Binary64,
        Binary64.read (config.nodeFraction.fixed 5) = .ok nodeFraction ∧
        Binary64.read (config.edgeFraction.fixed 5) = .ok edgeFraction ∧
        parse (base ++ "__" ++ config.suffix)
          = .ok ⟨base, { config with nodeFraction, edgeFraction }⟩) ∧
    ∀ (base : String) (config : RenderConfig), Odd (marksAtEnd base.toList) →
      parse (base ++ "__" ++ config.suffix)
        = .error (.nodeCount (base ++ "__" ++ config.suffix) .invalidDigit) := by
  refine ⟨fun fileName file => exists_texts_of_parse, fun base config heven => ?_,
    fun base config hodd => ?_⟩
  · obtain ⟨nodeFraction, edgeFraction, hnode, hedge, hparse⟩ := parse_of_separable heven config
    rw [readFraction_fractionPiece] at hnode hedge
    exact ⟨nodeFraction, edgeFraction, hnode, hedge, hparse⟩
  · exact parse_of_not_separable (Nat.not_even_iff_odd.2 hodd) config

/-- A configuration with a fraction that five places do not tell, and one that is no number. -/
def thirdsConfig : RenderConfig :=
  ⟨.svg, 100000, .ofRatio false 1 3, .nan⟩

theorem codec_spec_thirds :
    Even (marksAtEnd "sort__".toList) ∧ Odd (marksAtEnd "sort_".toList) ∧
    (∃ nodeFraction edgeFraction : Binary64,
      Binary64.read (thirdsConfig.nodeFraction.fixed 5) = .ok nodeFraction ∧
      Binary64.read (thirdsConfig.edgeFraction.fixed 5) = .ok edgeFraction ∧
      parse ("sort__" ++ "__" ++ thirdsConfig.suffix)
        = .ok ⟨"sort__", { thirdsConfig with nodeFraction, edgeFraction }⟩ ∧
      ∃ count node edge : String, "sort__" ++ "__" ++ thirdsConfig.suffix
          = "sort__" ++ "__" ++ count ++ "__" ++ node ++ "__" ++ edge ++ "."
            ++ thirdsConfig.format.name ∧
        ReadsAs { thirdsConfig with nodeFraction, edgeFraction } count node edge) ∧
    parse ("sort_" ++ "__" ++ thirdsConfig.suffix)
      = .error (.nodeCount ("sort_" ++ "__" ++ thirdsConfig.suffix) .invalidDigit) := by
  have heven : Even (marksAtEnd "sort__".toList) := by decide
  have hodd : Odd (marksAtEnd "sort_".toList) := by decide
  obtain ⟨nodeFraction, edgeFraction, hnode, hedge, hparse⟩ := codec_spec.2.1 _ thirdsConfig heven
  -- Stated before it is used, so that the base is known from `hparse`.
  have htexts := codec_spec.1 _ _ hparse
  exact ⟨heven, hodd, ⟨nodeFraction, edgeFraction, hnode, hedge, hparse, htexts⟩,
    codec_spec.2.2 _ thirdsConfig hodd⟩

end BenchCover.FileName
