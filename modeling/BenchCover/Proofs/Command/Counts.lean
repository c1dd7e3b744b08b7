import BenchCover.Command.Counts
import BenchCover.Proofs.Number.Integer
import BenchCover.Proofs.Text.Blank

/-!
# Which texts are lists of counts

A text of counts is cut at its commas.  A piece is blank, or it holds a positive integer of 64 bits
between blanks, or it is wrong.

**Reading.**  If no piece is wrong, the integers of the pieces are read in order
(`Counts.parse_eq_ok_iff`).  Otherwise the first wrong piece counts, whatever stands behind it
(`Counts.parse_eq_error_iff`).

**Writing.**  However positive integers are written, with blanks around them, a plus in front, zeros
before their digits and blank pieces in between, they are read back: `Counts.parse_of_writes`.
-/

namespace BenchCover.Counts

open Text Decimal

variable {piece entry : List Char} {pieces : List (List Char)} {counts : List ℕ} {n : ℕ}
  {fault : CountsFault} {text : String}

/-! ## Entries -/

/-- **Why an entry is refused.** -/
inductive Refused (entry : List Char) : CountsFault → Prop
  | notAnInteger {cause} : (∀ value, ¬ IsInt64 entry value) → readInt64 entry = .error cause →
      Refused entry (.notAnInteger (String.ofList entry) cause)
  | notPositive {value} : IsInt64 entry value → value ≤ 0 → Refused entry (.notPositive value)

lemma readEntry_eq_ok_iff : readEntry entry = .ok n ↔ IsInt64 entry n ∧ 0 < n := by
  rw [readEntry, ← readInt64_eq_ok_iff]
  cases readInt64 entry with
  | error cause => simp
  | ok value =>
    dsimp only
    split_ifs with hpositive
    · rw [Except.ok.injEq, Except.ok.injEq]
      omega
    · refine iff_of_false (by rintro ⟨⟩) fun ⟨hvalue, hn⟩ => hpositive ?_
      rw [Except.ok.inj hvalue]
      exact Int.natCast_pos.2 hn

lemma readEntry_eq_error_iff : readEntry entry = .error fault ↔ Refused entry fault := by
  constructor
  · rw [readEntry]
    cases hread : readInt64 entry with
    | error cause =>
      rintro ⟨⟩
      exact .notAnInteger (not_exists.1 (exists_readInt64_eq_error_iff.1 ⟨cause, hread⟩)) hread
    | ok value =>
      dsimp only
      split_ifs with hpositive
      · rintro ⟨⟩
      · rintro ⟨⟩
        exact .notPositive (readInt64_eq_ok_iff.1 hread) (Int.not_lt.1 hpositive)
  · intro h
    cases h with
    | notAnInteger _ hread => rw [readEntry, hread]
    | notPositive hvalue hnot =>
      rw [readEntry, readInt64_eq_ok_iff.2 hvalue]
      exact if_neg (Int.not_lt.2 hnot)

/-! ## Pieces -/

/-- The pieces that are no counts and not wrong. -/
def IsBlankPiece (piece : List Char) : Prop :=
  trim piece = []

/-- **What a piece counts**: it is a positive integer of 64 bits between blanks. -/
structure IsCount (piece : List Char) (n : ℕ) : Prop where
  isInt64 : IsInt64 (trim piece) n
  positive : 0 < n

lemma isCount_iff : IsCount piece n ↔ readEntry (trim piece) = .ok n := by
  rw [readEntry_eq_ok_iff]
  exact ⟨fun h => ⟨h.isInt64, h.positive⟩, fun h => ⟨h.1, h.2⟩⟩

lemma IsCount.not_blank (h : IsCount piece n) : ¬ IsBlankPiece piece := by
  intro hblank
  have hvalue := h.isInt64.1
  rw [hblank] at hvalue
  exact not_standsFor_nil hvalue

/-- **What pieces count**, one after the other. -/
inductive Tells : List (List Char) → List ℕ → Prop
  | nil : Tells [] []
  | blank {first rest told} : IsBlankPiece first → Tells rest told → Tells (first :: rest) told
  | count {first rest m told} : IsCount first m → Tells rest told →
      Tells (first :: rest) (m :: told)

/-- **A piece is the first wrong one**: it is neither blank nor a count, and all pieces before it are
one or the other. -/
structure RefusedAt (pieces : List (List Char)) (piece : List Char) : Prop where
  split : ∃ front back, pieces = front ++ piece :: back ∧
    ∀ earlier ∈ front, IsBlankPiece earlier ∨ ∃ n, IsCount earlier n
  not_blank : ¬ IsBlankPiece piece
  not_count : ∀ n, ¬ IsCount piece n

def ofPieces (pieces : List (List Char)) : Except CountsFault (List ℕ) :=
  ((pieces.map trim).filter fun entry => !entry.isEmpty).mapM readEntry

lemma parse_eq_ofPieces (text : String) : parse text = ofPieces (split [','] text.toList) := rfl

lemma ofPieces_cons_of_blank (h : IsBlankPiece piece) :
    ofPieces (piece :: pieces) = ofPieces pieces := by
  rw [IsBlankPiece] at h
  simp [ofPieces, h]

lemma ofPieces_cons (h : ¬ IsBlankPiece piece) :
    ofPieces (piece :: pieces) = (do
      let n ← readEntry (trim piece)
      let counts ← ofPieces pieces
      return n :: counts) := by
  rw [IsBlankPiece] at h
  simp [ofPieces, h, List.mapM_cons]

lemma ofPieces_cons_of_count (h : IsCount piece n) :
    ofPieces (piece :: pieces) = (ofPieces pieces).map (n :: ·) := by
  rw [ofPieces_cons h.not_blank, isCount_iff.1 h]
  cases ofPieces pieces <;> rfl

lemma ofPieces_cons_of_refused (hblank : ¬ IsBlankPiece piece) (h : Refused (trim piece) fault) :
    ofPieces (piece :: pieces) = .error fault := by
  rw [ofPieces_cons hblank, readEntry_eq_error_iff.2 h]
  rfl

lemma Tells.ofPieces_eq (h : Tells pieces counts) : ofPieces pieces = .ok counts := by
  induction h with
  | nil => rfl
  | blank hblank _ ih => rw [ofPieces_cons_of_blank hblank, ih]
  | count hcount _ ih =>
    rw [ofPieces_cons_of_count hcount, ih]
    rfl

lemma RefusedAt.ofPieces_eq (h : RefusedAt pieces piece) (hfault : Refused (trim piece) fault) :
    ofPieces pieces = .error fault := by
  obtain ⟨⟨front, back, rfl, hfront⟩, hblank, -⟩ := h
  induction front with
  | nil => exact ofPieces_cons_of_refused hblank hfault
  | cons earlier front ih =>
    obtain ⟨hearlier, hothers⟩ := List.forall_mem_cons.1 hfront
    rw [List.cons_append]
    rcases hearlier with hblank | ⟨n, hcount⟩
    · rw [ofPieces_cons_of_blank hblank, ih hothers]
    · rw [ofPieces_cons_of_count hcount, ih hothers]
      rfl

/-- A piece that is neither blank nor a count is refused for one reason. -/
lemma exists_refused (hcount : ∀ n, ¬ IsCount piece n) : ∃ fault, Refused (trim piece) fault := by
  simp only [← readEntry_eq_error_iff]
  cases hread : readEntry (trim piece) with
  | error fault => exact ⟨fault, rfl⟩
  | ok n => exact absurd (isCount_iff.2 hread) (hcount n)

lemma RefusedAt.cons {earlier : List Char} (h : RefusedAt pieces piece)
    (hearlier : IsBlankPiece earlier ∨ ∃ n, IsCount earlier n) :
    RefusedAt (earlier :: pieces) piece := by
  obtain ⟨⟨front, back, rfl, hfront⟩, hblank, hcount⟩ := h
  exact ⟨⟨earlier :: front, back, rfl, List.forall_mem_cons.2 ⟨hearlier, hfront⟩⟩, hblank, hcount⟩

/-- **Pieces tell counts, or one of them is the first wrong one.** -/
lemma tells_or_refusedAt (pieces : List (List Char)) :
    (∃ counts, Tells pieces counts) ∨ ∃ piece, RefusedAt pieces piece := by
  induction pieces with
  | nil => exact Or.inl ⟨[], .nil⟩
  | cons first pieces ih =>
    by_cases hblank : IsBlankPiece first
    · exact ih.imp (fun ⟨counts, hcounts⟩ => ⟨counts, .blank hblank hcounts⟩)
        fun ⟨piece, hpiece⟩ => ⟨piece, hpiece.cons (Or.inl hblank)⟩
    · by_cases hcount : ∃ n, IsCount first n
      · obtain ⟨n, hn⟩ := hcount
        exact ih.imp (fun ⟨counts, hcounts⟩ => ⟨n :: counts, .count hn hcounts⟩)
          fun ⟨piece, hpiece⟩ => ⟨piece, hpiece.cons (Or.inr ⟨n, hn⟩)⟩
      · exact Or.inr ⟨first, ⟨[], pieces, rfl, by simp⟩, hblank, not_exists.1 hcount⟩

/-! ## Reading -/

/-- **A text is read as counts** if each of its pieces is blank or a count. -/
theorem parse_eq_ok_iff : parse text = .ok counts ↔ Tells (split [','] text.toList) counts := by
  rw [parse_eq_ofPieces]
  refine ⟨fun hok => ?_, Tells.ofPieces_eq⟩
  rcases tells_or_refusedAt (split [','] text.toList) with ⟨counts', hcounts⟩ | ⟨piece, hpiece⟩
  · obtain rfl := Except.ok.inj (hcounts.ofPieces_eq.symm.trans hok)
    exact hcounts
  · obtain ⟨fault, hfault⟩ := exists_refused hpiece.not_count
    cases (hpiece.ofPieces_eq hfault).symm.trans hok

/-- **A text is refused** for the first of its pieces that is wrong. -/
theorem parse_eq_error_iff : parse text = .error fault ↔
    ∃ piece, RefusedAt (split [','] text.toList) piece ∧ Refused (trim piece) fault := by
  rw [parse_eq_ofPieces]
  refine ⟨fun herror => ?_, fun ⟨piece, hpiece, hfault⟩ => hpiece.ofPieces_eq hfault⟩
  rcases tells_or_refusedAt (split [','] text.toList) with ⟨counts, hcounts⟩ | ⟨piece, hpiece⟩
  · cases hcounts.ofPieces_eq.symm.trans herror
  · obtain ⟨fault', hfault'⟩ := exists_refused hpiece.not_count
    cases (hpiece.ofPieces_eq hfault').symm.trans herror
    exact ⟨piece, hpiece, hfault'⟩

/-! ## Writing -/

/-- **The ways to write counts**, as the pieces between commas. -/
inductive Writes : List ℕ → List (List Char) → Prop
  | nil : Writes [] []
  | blank {told first rest} : (∀ c ∈ first, isBlank c = true) → Writes told rest →
      Writes told (first :: rest)
  | count {told before sign digits after rest m} : (∀ c ∈ before, isBlank c = true) →
      (sign = [] ∨ sign = ['+']) → IsNumeral digits → ofDigits digits = m → 0 < m →
      m < signedLimit → (∀ c ∈ after, isBlank c = true) → Writes told rest →
      Writes (m :: told) ((before ++ (sign ++ digits) ++ after) :: rest)

lemma trim_of_isBlank (h : ∀ c ∈ piece, isBlank c = true) : trim piece = [] := by
  have hnil := trim_append_append h (List.forall_mem_nil _) []
  rwa [List.append_nil, List.append_nil] at hnil

lemma not_isBlank_of_isDigit {c : Char} (h : c.isDigit = true) : isBlank c = false := by
  obtain ⟨hlow, hhigh⟩ : 48 ≤ c.toNat ∧ c.toNat ≤ 57 := Char.isDigit_iff_toNat.1 h
  simp only [isBlank, blankRanges, List.any_cons, List.any_nil, Bool.or_false, Bool.or_eq_false_iff,
    Bool.and_eq_false_iff, decide_eq_false_iff_not]
  omega

/-- An integer that is written with blanks around it and a plus in front is a count. -/
lemma isCount_of_digits {before sign digits after : List Char}
    (hbefore : ∀ c ∈ before, isBlank c = true) (hsign : sign = [] ∨ sign = ['+'])
    (hdigits : IsNumeral digits) (hpositive : 0 < ofDigits digits)
    (hlimit : ofDigits digits < signedLimit) (hafter : ∀ c ∈ after, isBlank c = true) :
    IsCount (before ++ (sign ++ digits) ++ after) (ofDigits digits) := by
  have hstands : StandsFor (sign ++ digits) (ofDigits digits : ℤ) := by
    rcases hsign with rfl | rfl
    · exact .bare hdigits
    · exact .plus hdigits
  have hbare : ∀ c ∈ sign ++ digits, isBlank c = false := by
    intro c hc
    rcases List.mem_append.1 hc with hc | hc
    · rcases hsign with rfl | rfl
      · simp at hc
      · rw [List.mem_singleton.1 hc]
        decide
    · exact not_isBlank_of_isDigit (hdigits.isDigit c hc)
  refine ⟨?_, hpositive⟩
  rw [trim_append_append hbefore hafter, trim_of_forall hbare]
  exact ⟨hstands, by omega, by omega⟩

lemma Writes.tells (h : Writes counts pieces) : Tells pieces counts := by
  induction h with
  | nil => exact .nil
  | blank hblank _ ih => exact .blank (trim_of_isBlank hblank) ih
  | count hbefore hsign hdigits hvalue hpositive hlimit hafter _ ih =>
    subst hvalue
    exact .count (isCount_of_digits hbefore hsign hdigits hpositive hlimit hafter) ih

/-- Counts are written without commas. -/
lemma Writes.comma_notMem (h : Writes counts pieces) : ∀ piece ∈ pieces, ',' ∉ piece := by
  have hblank : ∀ {piece : List Char}, (∀ c ∈ piece, isBlank c = true) → ',' ∉ piece :=
    fun hall hcomma => absurd (hall ',' hcomma) (by decide)
  induction h with
  | nil => simp
  | blank hall _ ih => exact List.forall_mem_cons.2 ⟨hblank hall, ih⟩
  | count hbefore hsign hdigits _ _ _ hafter _ ih =>
    refine List.forall_mem_cons.2 ⟨fun hcomma => ?_, ih⟩
    simp only [List.mem_append] at hcomma
    rcases hcomma with (hcomma | hcomma | hcomma) | hcomma
    · exact hblank hbefore hcomma
    · rcases hsign with rfl | rfl <;> simp at hcomma
    · exact absurd (hdigits.isDigit ',' hcomma) (by decide)
    · exact hblank hafter hcomma

/-- **Counts that were written are read back.** -/
theorem parse_of_writes (h : Writes counts pieces) :
    parse (String.ofList (join [','] pieces)) = .ok counts := by
  rw [parse_eq_ofPieces, String.toList_ofList]
  cases pieces with
  | nil =>
    cases h
    rfl
  | cons piece pieces =>
    rw [split_join_char (List.cons_ne_nil _ _) h.comma_notMem]
    exact h.tells.ofPieces_eq

/-- **A text of blanks and commas has no counts.** -/
theorem parse_of_isBlank (h : ∀ c ∈ text.toList, isBlank c = true ∨ c = ',') :
    parse text = .ok [] := by
  have hpieces : ∀ piece ∈ split [','] text.toList, IsBlankPiece piece := by
    intro piece hpiece
    exact trim_of_isBlank (forall_mem_split (fun c hc => (h c hc).symm) piece hpiece)
  rw [parse_eq_ofPieces]
  generalize split [','] text.toList = pieces at hpieces
  induction pieces with
  | nil => rfl
  | cons piece pieces ih =>
    obtain ⟨hpiece, hothers⟩ := List.forall_mem_cons.1 hpieces
    rw [ofPieces_cons_of_blank hpiece, ih hothers]

end BenchCover.Counts
