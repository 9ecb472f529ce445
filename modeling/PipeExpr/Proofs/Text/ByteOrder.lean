import PipeExpr.Proofs.Grammar.Words

/-!
Texts in the order of their characters are in the order of their bytes. Of two characters the first
byte that differs tells which is the smaller one, whatever comes behind them, since the bytes of a
character hold its bits from the highest to the lowest.
-/
namespace PipeExpr.Text

/-- A byte behind the first one of a character holds six bits of it. -/
def continuation (n : Nat) : UInt8 := UInt8.ofNat (n % 64 + 0x80)

def encoding (n : Nat) : List UInt8 :=
  if n ≤ 0x7F then [UInt8.ofNat n]
  else if n ≤ 0x7FF then [UInt8.ofNat (n / 64 + 0xC0)] ++ [continuation n]
  else if n ≤ 0xFFFF then
    [UInt8.ofNat (n / 64 / 64 + 0xE0)] ++ [continuation (n / 64)] ++ [continuation n]
  else
    [UInt8.ofNat (n / 64 / 64 / 64 + 0xF0)] ++ [continuation (n / 64 / 64)] ++
      [continuation (n / 64)] ++ [continuation n]

theorem utf8EncodeChar_eq_encoding (c : Char) : String.utf8EncodeChar c = encoding c.toNat := by
  have hc : c.val.toNat = c.toNat := rfl
  have hmax := Grammar.toNat_lt c
  unfold String.utf8EncodeChar encoding continuation
  simp only [hc, Nat.div_div_eq_div_mul]
  split
  · rfl
  split
  · rw [Nat.mod_eq_of_lt (a := c.toNat / 64) (by omega)]
    rfl
  split
  · rw [Nat.mod_eq_of_lt (a := c.toNat / 4096) (by omega)]
    rfl
  · rw [Nat.mod_eq_of_lt (a := c.toNat / 262144) (by omega)]
    rfl

theorem cons_lt {a b : Nat} (h : a < b) (hb : b < 256) (x y : List UInt8) :
    UInt8.ofNat a :: x < UInt8.ofNat b :: y := by
  rw [List.cons_lt_cons_iff, UInt8.lt_iff_toNat_lt, UInt8.toNat_ofNat', UInt8.toNat_ofNat',
    Nat.mod_eq_of_lt (by omega), Nat.mod_eq_of_lt (by omega)]
  exact .inl h

/-- What the bytes in front do not tell apart, the last one does. -/
theorem append_continuation_lt {m n : Nat} {p q : List UInt8} (h : m < n)
    (hlt : m / 64 < n / 64 → ∀ x y, p ++ x < q ++ y) (heq : m / 64 = n / 64 → p = q)
    (x y : List UInt8) : p ++ [continuation m] ++ x < q ++ [continuation n] ++ y := by
  rw [List.append_assoc, List.append_assoc]
  have hdigits : m / 64 < n / 64 ∨ m / 64 = n / 64 ∧ m % 64 < n % 64 := by omega
  obtain hhigh | ⟨hhigh, hlow⟩ := hdigits
  · exact hlt hhigh _ _
  · rw [heq hhigh]
    exact List.append_left_lt (cons_lt (by omega) (by omega) _ _)

theorem encoding_append_lt {m n : Nat} (h : m < n) (hn : n < 0x110000) (x y : List UInt8) :
    encoding m ++ x < encoding n ++ y := by
  unfold encoding
  by_cases h1 : m ≤ 0x7F
  · rw [if_pos h1]
    repeat' split
    all_goals exact cons_lt (by omega) (by omega) _ _
  rw [if_neg h1, if_neg (by omega : ¬n ≤ 0x7F)]
  by_cases h2 : m ≤ 0x7FF
  · rw [if_pos h2]
    split
    · exact append_continuation_lt h (fun h => cons_lt (by omega) (by omega)) (fun h => by rw [h]) _ _
    split
    all_goals exact cons_lt (by omega) (by omega) _ _
  rw [if_neg h2, if_neg (by omega : ¬n ≤ 0x7FF)]
  by_cases h3 : m ≤ 0xFFFF
  · rw [if_pos h3]
    split
    · refine append_continuation_lt h (fun h => append_continuation_lt h ?_ ?_) ?_ _ _
      · exact fun h => cons_lt (by omega) (by omega)
      · exact fun h => by rw [h]
      · exact fun h => by rw [h]
    · exact cons_lt (by omega) (by omega) _ _
  rw [if_neg h3, if_neg (by omega : ¬n ≤ 0xFFFF)]
  refine append_continuation_lt h (fun h => append_continuation_lt h
    (fun h => append_continuation_lt h ?_ ?_) ?_) ?_ _ _
  · exact fun h => cons_lt (by omega) (by omega)
  · exact fun h => by rw [h]
  · exact fun h => by rw [h]
  · exact fun h => by rw [h]

theorem flatMap_utf8EncodeChar_lt {s t : List Char} (h : s < t) :
    s.flatMap String.utf8EncodeChar < t.flatMap String.utf8EncodeChar := by
  induction h with
  | @nil d t =>
    obtain ⟨-, heq⟩ | ⟨-, b, bs, heq, -⟩ := Grammar.utf8EncodeChar_cases d
    · rw [List.flatMap_nil, List.flatMap_cons, heq]
      exact List.Lex.nil
    · rw [List.flatMap_nil, List.flatMap_cons, heq]
      exact List.Lex.nil
  | @rel c s d t h =>
    rw [List.flatMap_cons, List.flatMap_cons, utf8EncodeChar_eq_encoding, utf8EncodeChar_eq_encoding]
    exact encoding_append_lt h (Grammar.toNat_lt d) _ _
  | cons h ih =>
    rw [List.flatMap_cons, List.flatMap_cons]
    exact List.append_left_lt ih

theorem bytes_lt_of_lt {s t : String} (h : s < t) : s.toUTF8.data.toList < t.toUTF8.data.toList := by
  rw [Grammar.bytes_eq_flatMap, Grammar.bytes_eq_flatMap]
  exact flatMap_utf8EncodeChar_lt h

theorem bytes_le_of_not_lt {s t : String} (h : ¬t < s) : s.toUTF8.data.toList ≤ t.toUTF8.data.toList := by
  by_cases hst : s < t
  · exact List.le_of_lt (bytes_lt_of_lt hst)
  · obtain rfl : s = t := String.le_antisymm (String.not_lt.mp h) (String.not_lt.mp hst)
    exact List.le_refl _

end PipeExpr.Text
