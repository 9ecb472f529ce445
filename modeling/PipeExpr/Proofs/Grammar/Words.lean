import PipeExpr.Grammar
import PipeExpr.Text.Name

/-!
A grammar tells words by their bytes, the lexer names by their characters. The two agree: a
character beyond ASCII is neither in a word nor in a name.
-/
namespace PipeExpr.Grammar
open Text

theorem bytes_eq_flatMap (s : String) :
    s.toUTF8.data.toList = s.toList.flatMap String.utf8EncodeChar := by
  rw [String.toUTF8_eq_toByteArray, ← String.utf8Encode_toList, List.utf8Encode,
    List.toList_data_toByteArray]

theorem toNat_lt (c : Char) : c.toNat < 0x110000 := by
  have hc : c.val.toNat = c.toNat := rfl
  have hv := c.valid
  simp only [UInt32.isValidChar, Nat.isValidChar, hc] at hv
  omega

theorem utf8EncodeChar_cases (c : Char) :
    c.toNat < 0x80 ∧ String.utf8EncodeChar c = [UInt8.ofNat c.toNat] ∨
      0x80 ≤ c.toNat ∧ ∃ b bs, String.utf8EncodeChar c = b :: bs ∧ 0x80 ≤ b.toNat := by
  have hc : c.val.toNat = c.toNat := rfl
  have hmax := toNat_lt c
  unfold String.utf8EncodeChar
  simp only [hc]
  split
  · exact .inl ⟨by omega, rfl⟩
  · refine .inr ⟨by omega, ?_⟩
    split
    · exact ⟨_, _, rfl, by simp; omega⟩
    · split
      · exact ⟨_, _, rfl, by simp; omega⟩
      · exact ⟨_, _, rfl, by simp; omega⟩

theorem isNameStart_iff {c : Char} :
    isNameStart c = true ↔ 0x41 ≤ c.toNat ∧ c.toNat ≤ 0x5A ∨ 0x61 ≤ c.toNat ∧ c.toNat ≤ 0x7A ∨
      c.toNat = 0x5F ∨ c.toNat = 0x24 := by
  have halpha : c.isAlpha = (decide ('A'.val ≤ c.val ∧ c.val ≤ 'Z'.val) ||
      (decide ('a'.val ≤ c.val) && decide (c.val ≤ 'z'.val))) := rfl
  simp [isNameStart, halpha, UInt32.le_iff_toNat_le, ← Char.toNat_inj, or_assoc]

theorem isNamePart_iff {c : Char} :
    isNamePart c = true ↔ isNameStart c = true ∨ 0x30 ≤ c.toNat ∧ c.toNat ≤ 0x39 := by
  simp [isNamePart, isNameStart, Char.isAlphanum, Char.isDigit, UInt32.le_iff_toNat_le, or_assoc,
    or_comm, or_left_comm]

theorem isWordStartByte_iff {b : UInt8} :
    isWordStartByte b = true ↔ 0x41 ≤ b.toNat ∧ b.toNat ≤ 0x5A ∨ 0x61 ≤ b.toNat ∧ b.toNat ≤ 0x7A ∨
      b.toNat = 0x5F ∨ b.toNat = 0x24 := by
  simp [isWordStartByte, UInt8.le_iff_toNat_le, ← UInt8.toNat_inj, or_assoc]

theorem isWordByte_iff {b : UInt8} :
    isWordByte b = true ↔ isWordStartByte b = true ∨ 0x30 ≤ b.toNat ∧ b.toNat ≤ 0x39 := by
  simp [isWordByte, UInt8.le_iff_toNat_le]

theorem isWordStartByte_head (c : Char) (bs : List UInt8) :
    ∃ b rest, String.utf8EncodeChar c ++ bs = b :: rest ∧ isWordStartByte b = isNameStart c := by
  cases utf8EncodeChar_cases c with
  | inl hascii =>
    obtain ⟨hc, he⟩ := hascii
    refine ⟨_, _, by rw [he]; rfl, ?_⟩
    rw [Bool.eq_iff_iff, isWordStartByte_iff, isNameStart_iff]
    simp
    omega
  | inr hwide =>
    obtain ⟨hc, b, rest, he, hb⟩ := hwide
    refine ⟨b, rest ++ bs, by rw [he]; rfl, ?_⟩
    rw [Bool.eq_iff_iff, isWordStartByte_iff, isNameStart_iff]
    omega

theorem all_isWordByte (c : Char) :
    (String.utf8EncodeChar c).all isWordByte = isNamePart c := by
  cases utf8EncodeChar_cases c with
  | inl hascii =>
    obtain ⟨hc, he⟩ := hascii
    rw [he, Bool.eq_iff_iff, List.all_cons, List.all_nil, Bool.and_true, isWordByte_iff,
      isWordStartByte_iff, isNamePart_iff, isNameStart_iff]
    simp
    omega
  | inr hwide =>
    obtain ⟨hc, b, rest, he, hb⟩ := hwide
    have hbyte : isWordByte b = false := by
      rw [Bool.eq_false_iff, ne_eq, isWordByte_iff, isWordStartByte_iff]
      omega
    rw [he, List.all_cons, hbyte, Bool.false_and, eq_comm, Bool.eq_false_iff, ne_eq, isNamePart_iff,
      isNameStart_iff]
    omega

theorem all_isWordByte_flatMap (s : List Char) :
    (s.flatMap String.utf8EncodeChar).all isWordByte = s.all isNamePart := by
  induction s with
  | nil => rfl
  | cons c s ih => rw [List.flatMap_cons, List.all_append, all_isWordByte, ih, List.all_cons]

/-- The words of a grammar are the names of the lexer. -/
theorem isWord_eq_isName (token : String) : isWord token = isName token.toList := by
  unfold isWord
  rw [bytes_eq_flatMap]
  cases token.toList with
  | nil => rfl
  | cons c s =>
    obtain ⟨b, bytes, hbytes, hb⟩ := isWordStartByte_head c (s.flatMap String.utf8EncodeChar)
    have hall : (b :: bytes).all isWordByte = (isNamePart c && s.all isNamePart) := by
      rw [← hbytes, List.all_append, all_isWordByte, all_isWordByte_flatMap]
    rw [List.flatMap_cons, hbytes]
    simp only [isName, ← hb]
    cases hstart : isWordStartByte b with
    | false => rfl
    | true =>
      have hpart := isNamePart_of_isNameStart (hb.symm.trans hstart)
      have hbyte : isWordByte b = true := isWordByte_iff.mpr (.inl hstart)
      simpa [hpart, hbyte] using hall

end PipeExpr.Grammar
