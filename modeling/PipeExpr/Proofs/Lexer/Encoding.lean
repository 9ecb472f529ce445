import PipeExpr.Proofs.Lexer.Context
import PipeExpr.Token.Bytes

/-!
Texts as bytes. A character is a byte of ASCII, or a byte that starts it and others that start none, all
beyond ASCII; so a class of characters within ASCII holds of bytes as it does of characters.
-/
namespace PipeExpr.Bytes

def utf8 (s : List Char) : List UInt8 := s.flatMap String.utf8EncodeChar

@[simp] theorem utf8_nil : utf8 [] = [] := rfl

@[simp] theorem utf8_cons (c : Char) (s : List Char) :
    utf8 (c :: s) = String.utf8EncodeChar c ++ utf8 s := rfl

@[simp] theorem utf8_append (s u : List Char) : utf8 (s ++ u) = utf8 s ++ utf8 u :=
  List.flatMap_append

theorem length_utf8 (s : List Char) : (utf8 s).length = byteLength s := by
  induction s with
  | nil => rfl
  | cons c s ih => rw [utf8_cons, List.length_append, ih, String.length_utf8EncodeChar, byteLength]

theorem toUTF8_eq_utf8 (text : String) : text.toUTF8.data.toList = utf8 text.toList :=
  Grammar.bytes_eq_flatMap text

theorem byteLength_toList (text : String) : byteLength text.toList = text.utf8ByteSize := by
  rw [← length_utf8, ← toUTF8_eq_utf8]
  rfl

theorem decode?_utf8 (s : List Char) : decode? (utf8 s) = some (String.ofList s) := by
  have hvalid : (utf8 s).toByteArray.IsValidUTF8 := ByteArray.isValidUTF8_utf8Encode
  rw [decode?, String.fromUTF8?, dif_pos hvalid]
  rfl

theorem utf8_prefix_iff {s u : List Char} : utf8 s <+: utf8 u ↔ s <+: u := by
  constructor
  · rintro ⟨bs, hbs⟩
    refine List.isPrefix_of_utf8Encode_append_eq_utf8Encode bs.toByteArray ?_
    rw [List.utf8Encode, List.utf8Encode, ← List.toByteArray_append]
    exact congrArg List.toByteArray hbs
  · rintro ⟨v, rfl⟩
    exact ⟨utf8 v, (utf8_append s v).symm⟩

theorem toNat_asChar (b : UInt8) : (asChar b).toNat = b.toNat := rfl

theorem asChar_inj {b b' : UInt8} (h : asChar b = asChar b') : b = b' := by
  rw [← UInt8.toNat_inj, ← toNat_asChar, ← toNat_asChar, h]

/-- A byte that stands in a character only behind another byte. -/
def Inner (b : UInt8) : Prop := ¬b.IsUTF8FirstByte

theorem Inner.wide {b : UInt8} (h : Inner b) : 0x80 ≤ b.toNat := by
  have hascii : ∀ n < 0x80, (UInt8.ofNat n).IsUTF8FirstByte := by decide
  by_contra hlt
  have hfirst := hascii b.toNat (by omega)
  rw [UInt8.ofNat_toNat] at hfirst
  exact h hfirst

theorem exists_encode_eq_cons (c : Char) : ∃ b bs, String.utf8EncodeChar c = b :: bs ∧
    b.IsUTF8FirstByte ∧ ∀ x ∈ bs, Inner x := by
  cases he : String.utf8EncodeChar c with
  | nil => exact absurd he String.utf8EncodeChar_ne_nil
  | cons b bs =>
    have hplace : ∀ (i : Nat) (hi : i < (b :: bs).length),
        (b :: bs)[i].IsUTF8FirstByte ↔ i = 0 := by
      rw [← he]
      exact fun i hi => UInt8.isUTF8FirstByte_getElem_utf8EncodeChar
    refine ⟨b, bs, rfl, (hplace 0 (by simp)).mpr rfl, fun x hx hfirst => ?_⟩
    obtain ⟨i, hi, rfl⟩ := List.getElem_of_mem hx
    have hzero := (hplace (i + 1) (by simpa using hi)).mp hfirst
    omega

theorem encode_cases (c : Char) : (∃ b, String.utf8EncodeChar c = [b] ∧ asChar b = c) ∨
    0x80 ≤ c.toNat ∧ ∃ b bs, String.utf8EncodeChar c = b :: bs ∧ ∀ x ∈ b :: bs, 0x80 ≤ x.toNat := by
  cases Grammar.utf8EncodeChar_cases c with
  | inl hascii =>
    obtain ⟨hc, he⟩ := hascii
    refine .inl ⟨_, he, ?_⟩
    rw [← Char.toNat_inj, toNat_asChar, UInt8.toNat_ofNat_of_lt' (by unfold UInt8.size; omega)]
  | inr hwide =>
    obtain ⟨hc, b, bs, he, hb⟩ := hwide
    obtain ⟨b', bs', he', -, hinner⟩ := exists_encode_eq_cons c
    obtain ⟨rfl, rfl⟩ := List.cons.inj (he.symm.trans he')
    refine .inr ⟨hc, b, bs, he, fun x hx => ?_⟩
    cases List.mem_cons.mp hx with
    | inl hx => exact hx ▸ hb
    | inr hx => exact (hinner x hx).wide

theorem encode_asChar {b : UInt8} (h : b.toNat < 0x80) :
    String.utf8EncodeChar (asChar b) = [b] := by
  obtain ⟨b', he, hb⟩ | ⟨hc, -⟩ := encode_cases (asChar b)
  · rw [he, asChar_inj hb]
  · rw [toNat_asChar] at hc
    omega

/-- A class of characters within ASCII. -/
def Narrow (p : Char → Bool) : Prop := ∀ c, p c = true → c.toNat < 0x80

section Classes
variable {p : Char → Bool}

theorem Narrow.eq_false (hp : Narrow p) {c : Char} (h : 0x80 ≤ c.toNat) : p c = false := by
  rw [Bool.eq_false_iff]
  intro hc
  have hlt := hp c hc
  omega

theorem Narrow.byte (hp : Narrow p) {b : UInt8} (h : 0x80 ≤ b.toNat) : p (asChar b) = false :=
  hp.eq_false h

theorem narrow_isDigit : Narrow Char.isDigit := by
  intro c h
  rw [Lexer.isDigit_iff] at h
  omega

theorem narrow_isNameStart : Narrow Text.isNameStart := by
  intro c h
  rw [Grammar.isNameStart_iff] at h
  omega

theorem narrow_isNamePart : Narrow Text.isNamePart := by
  intro c h
  rw [Grammar.isNamePart_iff] at h
  cases h with
  | inl hstart => exact narrow_isNameStart c hstart
  | inr hdigit => omega

theorem narrow_beq {d : Char} (hd : d.toNat < 0x80) : Narrow (· == d) := by
  intro c h
  rw [beq_iff_eq.mp h]
  exact hd

theorem narrow_isBlank : Narrow Lexer.isBlank := by
  intro c h
  simp only [Lexer.isBlank, Bool.or_eq_true, beq_iff_eq] at h
  rcases h with ((rfl | rfl) | rfl) | rfl <;> decide

theorem narrow_single? : Narrow fun c => (Lexer.single? c).isSome := by
  intro c h
  by_contra hwide
  have hne : ∀ d : Char, d.toNat < 0x80 → c ≠ d := fun d hd he => hwide (he ▸ hd)
  have hmark : Mark.ofChar? c = none := by
    unfold Mark.ofChar?
    split <;> first | rfl | exact absurd rfl (hne _ (by decide))
  simp [Lexer.single?, hmark, hne '-' (by decide)] at h

/-- Where a text is in a class its bytes are, and where it leaves it they leave it. -/
theorem takeWhile_utf8 (hp : Narrow p) (s : List Char) :
    (utf8 s).takeWhile (fun b => p (asChar b)) = utf8 (s.takeWhile p) ∧
      (utf8 s).dropWhile (fun b => p (asChar b)) = utf8 (s.dropWhile p) := by
  induction s with
  | nil => exact ⟨rfl, rfl⟩
  | cons c s ih =>
    obtain ⟨b, he, hb⟩ | ⟨hc, b, bs, he, hwide⟩ := encode_cases c
    · rw [utf8_cons, he, List.singleton_append, List.takeWhile_cons, List.dropWhile_cons, hb]
      by_cases hc : p c = true
      · simp only [if_pos hc, List.takeWhile_cons, List.dropWhile_cons, utf8_cons, he, ih.1, ih.2,
          List.singleton_append, and_self]
      · simp only [if_neg hc, List.takeWhile_cons, List.dropWhile_cons, utf8_cons, he, utf8_nil,
          List.singleton_append, and_self]
    · simp [he, hp.byte (hwide b List.mem_cons_self), hp.eq_false hc]

end Classes
end PipeExpr.Bytes
