import BenchCover.Proofs.Dot.Refusal

/-!
# Lines with other identifiers

`Statement.renameLine` replaces the identifiers in front of the attribute list of a line, and leaves the
list and the blanks around the identifiers as they are written.  Type arguments among the identifiers
are left out, since nothing reads them.

What stands in front of the first bracket has the pieces that it had, one by one
(`Statement.split_renameHead`), and the list behind it is the same (`Statement.cut_renameLine`).  So the
line says the same but for the identifiers, or it is refused as it was: `Statement.ofLine_renameLine`.
-/

namespace BenchCover.Dot

open Statement (arrow withoutTypeArguments)

/-! ## Replacing identifiers -/

namespace Statement

variable {rename : List Char → List Char} {line head list piece identifier : List Char}

/-- The identifiers in front of an attribute list. -/
def identifiersIn (head : List Char) : List (List Char) :=
  (Text.split arrow head).map Text.trim

/-- A text with other characters between the blanks at its ends. -/
def renamePiece (rename : List Char → List Char) (piece : List Char) : List Char :=
  piece.takeWhile Text.isBlank ++ rename (Text.trim piece) ++
    ((Text.trimStart piece).reverse.takeWhile Text.isBlank).reverse

def renameHead (rename : List Char → List Char) (head : List Char) : List Char :=
  Text.join arrow ((Text.split arrow head).map (renamePiece rename))

/-- What stands in front of the attribute list of a line, and the list as it is written, with the type
arguments in it. -/
def cutList? (line : List Char) : Option (List Char × List Char) :=
  if line.head? = some 'N' then
    match Text.cutFirst '[' (withoutTypeArguments line) with
    | none => none
    | some (head, list) =>
      (line.tails.find? fun written => withoutTypeArguments written = '[' :: list).map (head, ·)
  else none

/-- **A line with other identifiers.** -/
def renameLine (rename : List Char → List Char) (line : List Char) : List Char :=
  match cutList? line with
  | none => line
  | some (head, written) => renameHead rename head ++ written

/-- **The identifiers of a line** stand in front of its attribute list. -/
def identifiersOf (line : List Char) : List (List Char) :=
  if line.head? = some 'N' then
    match Text.cutFirst '[' (withoutTypeArguments line) with
    | none => []
    | some (head, _) => identifiersIn head
  else []

/-- An identifier that can stand in front of an attribute list. -/
@[mk_iff]
structure IsIdentifier (identifier : List Char) : Prop where
  head_eq : identifier.head? = some 'N'
  trim_eq : Text.trim identifier = identifier
  noBracket : '[' ∉ identifier
  noArrow : ¬ arrow <:+: identifier

instance (identifier : List Char) : Decidable (IsIdentifier identifier) :=
  decidable_of_iff _ (isIdentifier_iff identifier).symm

/-! ### What stands in front of the list -/

lemma mem_renamePiece {c : Char} (hc : c ∈ renamePiece rename piece) :
    Text.isBlank c = true ∨ c ∈ rename (Text.trim piece) := by
  rw [renamePiece, List.mem_append, List.mem_append, List.mem_reverse] at hc
  rcases hc with (hc | hc) | hc
  · exact Or.inl (List.mem_takeWhile_imp hc)
  · exact Or.inr hc
  · exact Or.inl (List.mem_takeWhile_imp hc)

lemma trim_renamePiece (hnew : IsIdentifier (rename (Text.trim piece))) :
    Text.trim (renamePiece rename piece) = rename (Text.trim piece) := by
  rw [renamePiece, Text.trim_append_append (fun c hc => List.mem_takeWhile_imp hc)
    (fun c hc => List.mem_takeWhile_imp (List.mem_reverse.1 hc)), hnew.trim_eq]

lemma arrow_notIn_renamePiece (hnew : IsIdentifier (rename (Text.trim piece))) :
    ¬ arrow <:+: renamePiece rename piece := by
  intro harrow
  have hinside := contains_arrow_trim_iff.2 harrow
  rw [trim_renamePiece hnew, Text.contains_iff] at hinside
  exact hnew.noArrow hinside

/-- **The pieces between arrows** are replaced one by one. -/
lemma split_renameHead (hnew : ∀ identifier ∈ identifiersIn head, IsIdentifier (rename identifier)) :
    Text.split arrow (renameHead rename head)
      = (Text.split arrow head).map (renamePiece rename) := by
  refine Text.split_join (by decide) (by simpa using Text.split_ne_nil arrow head) ?_
  intro renamed hrenamed
  obtain ⟨piece, hpiece, rfl⟩ := List.mem_map.1 hrenamed
  exact arrow_notIn_renamePiece (hnew _ (List.mem_map_of_mem hpiece))

lemma identifiersIn_renameHead
    (hnew : ∀ identifier ∈ identifiersIn head, IsIdentifier (rename identifier)) :
    identifiersIn (renameHead rename head) = (identifiersIn head).map rename := by
  rw [identifiersIn, split_renameHead hnew, identifiersIn, List.map_map, List.map_map]
  exact List.map_congr_left fun piece hpiece =>
    trim_renamePiece (hnew _ (List.mem_map_of_mem hpiece))

/-- There is an arrow if there are several pieces. -/
lemma arrow_infix_iff : arrow <:+: head ↔ (Text.split arrow head).length ≠ 1 := by
  constructor
  · intro harrow
    exact (Text.one_lt_length_split (by decide) harrow).ne'
  · intro hlength
    by_contra hnot
    rw [Text.split_of_not_infix hnot] at hlength
    exact hlength rfl

lemma arrow_infix_renameHead_iff
    (hnew : ∀ identifier ∈ identifiersIn head, IsIdentifier (rename identifier)) :
    arrow <:+: renameHead rename head ↔ arrow <:+: head := by
  rw [arrow_infix_iff, split_renameHead hnew, List.length_map, arrow_infix_iff]

lemma bracket_notMem_renameHead
    (hnew : ∀ identifier ∈ identifiersIn head, IsIdentifier (rename identifier)) :
    '[' ∉ renameHead rename head := by
  intro hmem
  rcases Text.mem_of_mem_join hmem with hmem | ⟨renamed, hrenamed, hmem⟩
  · exact absurd hmem (by decide)
  · obtain ⟨piece, hpiece, rfl⟩ := List.mem_map.1 hrenamed
    rcases mem_renamePiece hmem with hblank | hmem
    · exact absurd hblank (by decide)
    · exact (hnew _ (List.mem_map_of_mem hpiece)).noBracket hmem

/-- The first identifier is at the very start of the line. -/
lemma head?_renameHead (hhead : head.head? = some 'N')
    (hnew : ∀ identifier ∈ identifiersIn head, IsIdentifier (rename identifier)) :
    (renameHead rename head).head? = some 'N' := by
  obtain ⟨rest, rfl⟩ : ∃ rest, head = 'N' :: rest := by
    cases head with
    | nil => cases hhead
    | cons c rest =>
      obtain rfl := Option.some.inj hhead
      exact ⟨rest, rfl⟩
  have hbegins : ¬ arrow <+: 'N' :: rest := fun h => absurd (List.cons_prefix_cons.1 h).1 (by decide)
  obtain ⟨piece, pieces, hsplit⟩ := List.exists_cons_of_ne_nil (Text.split_ne_nil arrow rest)
  have hpieces : Text.split arrow ('N' :: rest) = ('N' :: piece) :: pieces := by
    rw [Text.split_cons hbegins, hsplit]
    rfl
  have hfirst : (rename (Text.trim ('N' :: piece))).head? = some 'N' :=
    (hnew _ (by rw [identifiersIn, hpieces]; exact List.mem_cons_self)).head_eq
  have hrenamed : (renamePiece rename ('N' :: piece)).head? = some 'N' := by
    have hblank : ('N' :: piece).takeWhile Text.isBlank = [] :=
      List.takeWhile_cons_of_neg (by decide)
    rw [renamePiece, hblank, List.nil_append, List.head?_append, hfirst, Option.some_or]
  rw [renameHead, hpieces, List.map_cons, Text.join]
  cases pieces with
  | nil => simpa using hrenamed
  | cons next pieces =>
    rw [List.map_cons, List.intercalate_cons_cons, List.append_assoc, List.head?_append, hrenamed,
      Option.some_or]

/-! ### Lines -/

/-- Type arguments are taken out behind a text without brackets as they would be without it. -/
lemma withoutTypeArguments_append_left {before : List Char} (hbefore : '[' ∉ before)
    (after : List Char) :
    withoutTypeArguments (before ++ after) = before ++ withoutTypeArguments after := by
  have hdots : Text.replace "[\u2026]".toList [] (before ++ after)
      = before ++ Text.replace "[\u2026]".toList [] after :=
    Text.replace_append_left hbefore [] after
  have hpoints : ∀ after : List Char, Text.replace "[...]".toList [] (before ++ after)
      = before ++ Text.replace "[...]".toList [] after :=
    Text.replace_append_left hbefore []
  rw [withoutTypeArguments, hdots, hpoints, withoutTypeArguments]

/-- The text in front of the attribute list starts as the line does. -/
lemma head?_of_cut (hhead : line.head? = some 'N')
    (hcut : Text.cutFirst '[' (withoutTypeArguments line) = some (head, list)) :
    head.head? = some 'N' := by
  obtain ⟨rest, rfl⟩ := List.head?_eq_some_iff.1 hhead
  obtain ⟨hline, -⟩ := Text.cutFirst_eq_some_iff.1 hcut
  rw [← List.nil_append ('N' :: rest), withoutTypeArguments_append_cons (by decide),
    show withoutTypeArguments [] = [] from rfl, List.nil_append] at hline
  cases head with
  | nil => cases hline
  | cons first head => rw [← (List.cons.inj hline).1, List.head?_cons]

/-- The attribute list stands in the line, maybe with type arguments in it. -/
lemma exists_written (hcut : Text.cutFirst '[' (withoutTypeArguments line) = some (head, list)) :
    ∃ written, written <:+ line ∧ withoutTypeArguments written = '[' :: list := by
  obtain ⟨hline, -⟩ := Text.cutFirst_eq_some_iff.1 hcut
  obtain ⟨middle, ⟨front, hmiddle⟩, hlist⟩ :=
    Text.exists_suffix_of_erase (show "[...]".toList ≠ [] by decide) _ hline
  cases middle with
  | nil => cases hlist
  | cons first rest =>
    obtain ⟨written, hwritten, herase⟩ :=
      Text.exists_suffix_of_erase (show "[\u2026]".toList ≠ [] by decide) line hmiddle.symm
    exact ⟨written, hwritten, by rw [withoutTypeArguments, herase, hlist]⟩

lemma renameLine_of_cut (rename : List Char → List Char) (hhead : line.head? = some 'N')
    (hcut : Text.cutFirst '[' (withoutTypeArguments line) = some (head, list)) :
    ∃ written, withoutTypeArguments written = '[' :: list ∧
      renameLine rename line = renameHead rename head ++ written := by
  obtain ⟨ending, hending, hlist⟩ := exists_written hcut
  cases hfind : line.tails.find? (fun written => withoutTypeArguments written = '[' :: list) with
  | none => simpa [hlist] using List.find?_eq_none.1 hfind ending ((List.mem_tails _ _).2 hending)
  | some written =>
    have hlist : withoutTypeArguments written = '[' :: list := by
      simpa using List.find?_some hfind
    refine ⟨written, hlist, ?_⟩
    have hcutList : cutList? line = some (head, written) := by
      simp only [cutList?, hhead, hcut, hfind, if_true, Option.map_some]
    rw [renameLine, hcutList]

/-- A line without an attribute list has no identifiers. -/
lemma renameLine_of_uncut (rename : List Char → List Char)
    (h : line.head? = some 'N' → Text.cutFirst '[' (withoutTypeArguments line) = none) :
    renameLine rename line = line := by
  have hcutList : cutList? line = none := by
    rw [cutList?]
    split_ifs with hhead
    · rw [h hhead]
    · rfl
  rw [renameLine, hcutList]

/-- **What stands around the first bracket** of a line with other identifiers. -/
lemma cut_renameLine (hhead : line.head? = some 'N')
    (hcut : Text.cutFirst '[' (withoutTypeArguments line) = some (head, list))
    (hnew : ∀ identifier ∈ identifiersIn head, IsIdentifier (rename identifier)) :
    (renameLine rename line).head? = some 'N' ∧
      Text.cutFirst '[' (withoutTypeArguments (renameLine rename line))
        = some (renameHead rename head, list) := by
  obtain ⟨written, hlist, hline⟩ := renameLine_of_cut rename hhead hcut
  have hbracket := bracket_notMem_renameHead hnew
  refine ⟨?_, ?_⟩
  · rw [hline, List.head?_append, head?_renameHead (head?_of_cut hhead hcut) hnew, Option.some_or]
  · rw [hline, withoutTypeArguments_append_left hbracket, hlist, Text.cutFirst_append hbracket]

end Statement

/-! ## Results that agree -/

/-- **Results that agree** are both values or both faults, related one by one. -/
inductive Agree {ε ε' α α' : Type} (Faults : ε → ε' → Prop) (Values : α → α' → Prop) :
    Except ε α → Except ε' α' → Prop
  | value {a : α} {a' : α'} (h : Values a a') : Agree Faults Values (.ok a) (.ok a')
  | fault {e : ε} {e' : ε'} (h : Faults e e') : Agree Faults Values (.error e) (.error e')

namespace Agree

variable {ε ε' α α' β β' : Type} {Faults : ε → ε' → Prop} {Values : α → α' → Prop}
  {Values' : β → β' → Prop} {x : Except ε α} {x' : Except ε' α'}

/-- Chains of readings agree step by step. -/
lemma bind {f : α → Except ε β} {f' : α' → Except ε' β'} (h : Agree Faults Values x x')
    (hstep : ∀ a a', Values a a' → Agree Faults Values' (f a) (f' a')) :
    Agree Faults Values' (x.bind f) (x'.bind f') := by
  cases h with
  | value hvalues => exact hstep _ _ hvalues
  | fault hfaults => exact .fault hfaults

lemma imp {Values' : α → α' → Prop} (h : Agree Faults Values x x')
    (hvalues : ∀ a a', Values a a' → Values' a a') : Agree Faults Values' x x' := by
  cases h with
  | value h => exact .value (hvalues _ _ h)
  | fault h => exact .fault h

lemma map (h : Agree Faults Values x x') (f : α → β) (f' : α' → β') :
    Agree Faults (fun _ _ => True) (x.map f) (x'.map f') := by
  cases h with
  | value _ => exact .value trivial
  | fault hfaults => exact .fault hfaults

/-- Whether results agree in their faults is told by any part of the values. -/
lemma of_map {f : α → β} {f' : α' → β'} (h : Agree Faults Values' (x.map f) (x'.map f'))
    (hvalues : ∀ a a', x = .ok a → x' = .ok a' → Values a a') : Agree Faults Values x x' := by
  cases x with
  | error e =>
    cases x' with
    | error e' =>
      cases h with
      | fault hfaults => exact .fault hfaults
    | ok a' => cases h
  | ok a =>
    cases x' with
    | error e' => cases h
    | ok a' => exact .value (hvalues a a' rfl rfl)

lemma same {Faults : ε → ε → Prop} (hfaults : ∀ e, Faults e e) (x : Except ε α) :
    Agree Faults Eq x x := by
  cases x with
  | ok a => exact .value rfl
  | error e => exact .fault (hfaults e)

end Agree

/-- Lines that are both refused may be so for identifiers that are called otherwise. -/
abbrev Refusals (_ _ : LineFault) : Prop := True

/-! ## What lines with other identifiers say -/

namespace Statement

variable {rename : List Char → List Char} {line head list : List Char} {statement : Statement}

def identifiers : Statement → List (List Char)
  | .nothing | .untipped => []
  | .node identifier _ _ => [identifier]
  | .edge caller callee _ => [caller, callee]

def withIdentifiers (rename : List Char → List Char) : Statement → Statement
  | .nothing => .nothing
  | .untipped => .untipped
  | .node identifier function times => .node (rename identifier) function times
  | .edge caller callee time => .edge (rename caller) (rename callee) time

lemma map_trim_split_arrow (head : List Char) :
    (Text.split arrow (Text.trim head)).map Text.trim = identifiersIn head :=
  Text.map_trim_split_trim (by decide) (by simp [arrow, Text.isBlank, Text.blankRanges]) head

/-- Without an arrow the text in front of the list is a single identifier. -/
lemma identifiersIn_of_no_arrow (harrow : ¬ arrow <:+: head) :
    identifiersIn head = [Text.trim head] := by
  rw [identifiersIn, Text.split_of_not_infix harrow, List.map_singleton]

/-- An edge with other identifiers. -/
lemma ofEdge_agree {head' : List Char}
    (hends : identifiersIn head' = (identifiersIn head).map rename) (list : List Char) :
    Agree Refusals (fun statement statement' => statement' = statement.withIdentifiers rename ∧
        statement.identifiers = identifiersIn head)
      (ofEdge (Text.trim head) list) (ofEdge (Text.trim head') list) := by
  rw [← map_trim_split_arrow, ← map_trim_split_arrow head] at hends
  rw [← map_trim_split_arrow head]
  rcases ofEdge_eq (Text.trim head) list with ⟨caller, callee, hpair, hedge⟩ | ⟨hlength, hedge⟩
  · rw [hedge, ofEdge, hends, hpair]
    exact .value ⟨rfl, rfl⟩
  · rcases ofEdge_eq (Text.trim head') list with ⟨_, _, hpair, -⟩ | ⟨-, hedge'⟩
    · rw [hpair] at hends
      exact absurd (by simpa using congrArg List.length hends.symm) hlength
    · rw [hedge, hedge']
      exact .fault trivial

/-- A node with another identifier. -/
lemma ofNode_agree (rename : List Char → List Char) (identifier list : List Char) :
    Agree Refusals (fun statement statement' => statement' = statement.withIdentifiers rename ∧
        statement.identifiers = [identifier])
      (ofNode identifier list) (ofNode (rename identifier) list) := by
  cases hnode : ofNode identifier list with
  | error cause =>
    rw [ofNode_eq_error_iff.2 (ofNode_eq_error_iff.1 hnode)]
    exact .fault trivial
  | ok statement =>
    obtain ⟨tooltip, label, times, htooltip, hname, hlabel, htimes, rfl⟩ := ofNode_eq_ok_iff.1 hnode
    rw [ofNode_eq_ok_iff.2 ⟨tooltip, label, times, htooltip, hname, hlabel, htimes, rfl⟩]
    exact .value ⟨rfl, rfl⟩

/-- **A line with other identifiers** says the same of them, or it is refused like the line. -/
theorem ofLine_renameLine
    (hnew : ∀ identifier ∈ identifiersOf line, IsIdentifier (rename identifier)) :
    Agree Refusals (fun statement statement' => statement' = statement.withIdentifiers rename ∧
        ∀ identifier ∈ statement.identifiers, identifier ∈ identifiersOf line)
      (ofLine line) (ofLine (renameLine rename line)) := by
  by_cases hhead : line.head? = some 'N'
  case neg =>
    rw [renameLine_of_uncut rename fun h => absurd h hhead, ofLine_of_head hhead]
    exact .value ⟨rfl, by simp [identifiers]⟩
  cases hcut : Text.cutFirst '[' (withoutTypeArguments line) with
  | none =>
    rw [renameLine_of_uncut rename fun _ => hcut]
    cases hline : ofLine line with
    | error cause => exact .fault trivial
    | ok statement =>
      obtain ⟨head, list, hsome⟩ := exists_cut_of_ofLine hhead hline
      cases hcut.symm.trans hsome
  | some parts =>
    obtain ⟨head, list⟩ := parts
    have hline : identifiersOf line = identifiersIn head := by
      rw [identifiersOf, if_pos hhead, hcut]
    rw [hline] at hnew ⊢
    obtain ⟨hhead', hcut'⟩ := cut_renameLine hhead hcut hnew
    have hids := identifiersIn_renameHead hnew
    have harrows := arrow_infix_renameHead_iff hnew
    rw [ofLine_of_cut hhead hcut, ofLine_of_cut hhead' hcut']
    by_cases harrow : arrow <:+: head
    · rw [if_pos (contains_arrow_trim_iff.2 harrow),
        if_pos (contains_arrow_trim_iff.2 (harrows.2 harrow))]
      exact (ofEdge_agree hids _).imp fun statement statement' h =>
        ⟨h.1, fun identifier hmem => h.2 ▸ hmem⟩
    · have hsingle := identifiersIn_of_no_arrow harrow
      rw [hsingle, identifiersIn_of_no_arrow (mt harrows.1 harrow), List.map_singleton,
        List.singleton_inj] at hids
      rw [if_neg (mt contains_arrow_trim_iff.1 harrow),
        if_neg (mt contains_arrow_trim_iff.1 (mt harrows.1 harrow)), hids]
      split_ifs with htooltip
      · exact .value ⟨rfl, by simp [identifiers]⟩
      · exact (ofNode_agree rename _ _).imp fun statement statement' h =>
          ⟨h.1, fun identifier hmem => hsingle ▸ h.2 ▸ hmem⟩

end Statement

end BenchCover.Dot
