import Mathlib.Data.List.Basic
import Mathlib.Tactic.Lemma

/-!
# The order of bytes

Strings are compared by code points, and file systems compare the bytes of names.  In UTF-8 that is the
same: of two different characters the smaller one has the smaller byte at the first place where their
bytes differ (`exists_byte_lt`).
-/

namespace BenchCover.Text

variable {a b : String} {c d : Char}

/-- **A string that comes before another one** by the bytes of both in UTF-8. -/
def BytesBefore (a b : String) : Prop :=
  List.Lex (· < ·) a.toUTF8.data.toList b.toUTF8.data.toList

lemma ofNat_lt_ofNat {m n : ℕ} (hn : n < 256) (h : m < n) : UInt8.ofNat m < UInt8.ofNat n := by
  rw [UInt8.lt_iff_toNat_lt, UInt8.toNat_ofNat_of_lt' (Nat.lt_trans h hn),
    UInt8.toNat_ofNat_of_lt' hn]
  exact h

/-- **Different characters** first differ in some byte. -/
lemma exists_byte_lt (h : c < d) : ∃ same x y rest rest',
    String.utf8EncodeChar c = same ++ x :: rest ∧ String.utf8EncodeChar d = same ++ y :: rest' ∧
      x < y := by
  have hless : c.val.toNat < d.val.toNat := h
  have hbound : d.val.toNat < 0x110000 := by
    have hvalid : d.val.toNat < 0xd800 ∨ 0xdfff < d.val.toNat ∧ d.val.toNat < 0x110000 := d.valid
    omega
  simp only [String.utf8EncodeChar]
  generalize c.val.toNat = m at hless
  generalize d.val.toNat = n at hless hbound
  split_ifs
  all_goals try omega
  -- characters of one byte, or of different numbers of bytes, differ in the first one
  all_goals try exact ⟨[], _, _, _, _, rfl, rfl, ofNat_lt_ofNat (by omega) (by omega)⟩
  · by_cases hfirst : m / 64 = n / 64
    · exact ⟨[_], _, _, _, _, rfl, by rw [hfirst]; rfl, ofNat_lt_ofNat (by omega) (by omega)⟩
    · exact ⟨[], _, _, _, _, rfl, rfl, ofNat_lt_ofNat (by omega) (by omega)⟩
  · by_cases hfirst : m / 4096 = n / 4096
    · by_cases hsecond : m / 64 = n / 64
      · exact ⟨[_, _], _, _, _, _, rfl, by rw [hfirst, hsecond]; rfl,
          ofNat_lt_ofNat (by omega) (by omega)⟩
      · exact ⟨[_], _, _, _, _, rfl, by rw [hfirst]; rfl, ofNat_lt_ofNat (by omega) (by omega)⟩
    · exact ⟨[], _, _, _, _, rfl, rfl, ofNat_lt_ofNat (by omega) (by omega)⟩
  · by_cases hfirst : m / 262144 = n / 262144
    · by_cases hsecond : m / 4096 = n / 4096
      · by_cases hthird : m / 64 = n / 64
        · exact ⟨[_, _, _], _, _, _, _, rfl, by rw [hfirst, hsecond, hthird]; rfl,
            ofNat_lt_ofNat (by omega) (by omega)⟩
        · exact ⟨[_, _], _, _, _, _, rfl, by rw [hfirst, hsecond]; rfl,
            ofNat_lt_ofNat (by omega) (by omega)⟩
      · exact ⟨[_], _, _, _, _, rfl, by rw [hfirst]; rfl, ofNat_lt_ofNat (by omega) (by omega)⟩
    · exact ⟨[], _, _, _, _, rfl, rfl, ofNat_lt_ofNat (by omega) (by omega)⟩

lemma lex_append_left {α : Type} {r : α → α → Prop} (same : List α) {l l' : List α}
    (h : List.Lex r l l') : List.Lex r (same ++ l) (same ++ l') := by
  induction same with
  | nil => exact h
  | cons x same ih => exact .cons ih

lemma lex_flatMap_utf8EncodeChar {l l' : List Char} (h : List.Lex (· < ·) l l') :
    List.Lex (· < ·) (l.flatMap String.utf8EncodeChar) (l'.flatMap String.utf8EncodeChar) := by
  induction h with
  | @nil d l =>
    obtain ⟨x, rest, hx⟩ := List.exists_cons_of_ne_nil (show String.utf8EncodeChar d ≠ [] by simp)
    rw [List.flatMap_nil, List.flatMap_cons, hx, List.cons_append]
    exact .nil
  | cons h ih =>
    rw [List.flatMap_cons, List.flatMap_cons]
    exact lex_append_left _ ih
  | rel h =>
    obtain ⟨same, x, y, rest, rest', hc, hd, hless⟩ := exists_byte_lt h
    rw [List.flatMap_cons, List.flatMap_cons, hc, hd, List.append_assoc, List.append_assoc]
    exact lex_append_left same (.rel hless)

/-- **The order of strings is that of their bytes.** -/
theorem bytesBefore_of_lt (h : a < b) : BytesBefore a b := by
  have hbytes : ∀ s : String,
      s.toUTF8.data.toList = s.toList.flatMap String.utf8EncodeChar := by
    intro s
    rw [String.toUTF8, ← String.utf8Encode_toList, List.utf8Encode]
    simp
  rw [BytesBefore, hbytes, hbytes]
  exact lex_flatMap_utf8EncodeChar h

end BenchCover.Text
