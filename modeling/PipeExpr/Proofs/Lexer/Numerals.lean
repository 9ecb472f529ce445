import Mathlib.Data.List.TakeWhile
import PipeExpr.Proofs.Lexer.Scans

/-!
Numbers as they are written: unsigned digits, with a point in front of some of them or none. Each number
token is the reading of a numeral that stands in the text.
-/
namespace PipeExpr

/-- The text is digits, digits and a point between them, or a point and digits, and stands for the
number. -/
inductive Numeral : List Char → Float → Prop where
  | whole {digits : List Char} : digits ≠ [] → (∀ c ∈ digits, c.isDigit = true) →
      Numeral digits (Decimal.ofDigits digits [])
  | pointed {digits fraction : List Char} : (∀ c ∈ digits, c.isDigit = true) → fraction ≠ [] →
      (∀ c ∈ fraction, c.isDigit = true) →
      Numeral (digits ++ '.' :: fraction) (Decimal.ofDigits digits fraction)

theorem Numeral.ofText? {s : List Char} {x : Float} (h : Numeral s x) :
    Decimal.ofText? s = some x := by
  cases h with
  | whole hne hdigits =>
    have htake := List.takeWhile_eq_self_iff.mpr hdigits
    have hdrop := List.dropWhile_eq_nil_iff.mpr hdigits
    simp [Decimal.ofText?, htake, hdrop, hne]
  | @pointed digits fraction hdigits hne hfraction =>
    have hpoint : Char.isDigit '.' = false := rfl
    have htake : (digits ++ '.' :: fraction).takeWhile Char.isDigit = digits := by
      rw [List.takeWhile_append_of_pos hdigits, List.takeWhile_cons_of_neg (by simp [hpoint]),
        List.append_nil]
    have hdrop : (digits ++ '.' :: fraction).dropWhile Char.isDigit = '.' :: fraction := by
      rw [List.dropWhile_append_of_pos hdigits, List.dropWhile_cons_of_neg (by simp [hpoint])]
    simp only [Decimal.ofText?, htake, hdrop]
    simpa [hne] using hfraction

namespace Lexer

theorem isDigit_of_mem_digitsOf {c : Char} {s : List Char} (h : c ∈ digitsOf s) :
    c.isDigit = true :=
  List.all_eq_true.mp List.all_takeWhile c h

theorem digitsOf_ne_nil {s : List Char} (h : startsWithDigit s = true) : digitsOf s ≠ [] := by
  cases s with
  | nil => cases h
  | cons c s => simp [digitsOf, List.takeWhile_cons_of_pos (show c.isDigit = true from h)]

theorem scanNumber_numeral {c : Char} {s : List Char}
    (h : (c.isDigit || (c == '.' && startsWithDigit s)) = true) :
    ∃ x, (scanNumber (c :: s)).content = .ok (.number x) ∧
      Numeral (scanNumber (c :: s)).slice x := by
  have hdigits : ∀ d ∈ digitsOf (c :: s), d.isDigit = true := fun d => isDigit_of_mem_digitsOf
  unfold scanNumber
  dsimp only
  split
  · next rest hafter =>
    by_cases hrest : startsWithDigit rest = true
    · rw [if_pos hrest]
      exact ⟨_, rfl, .pointed hdigits (digitsOf_ne_nil hrest) fun d => isDigit_of_mem_digitsOf⟩
    · rw [if_neg hrest]
      refine ⟨_, rfl, .whole ?_ hdigits⟩
      -- a point in front would have a digit behind it
      cases hc : c.isDigit with
      | true => exact digitsOf_ne_nil hc
      | false =>
        rw [afterDigits, List.dropWhile_cons_of_neg (by simp [hc])] at hafter
        obtain ⟨rfl, rfl⟩ := List.cons.inj hafter
        rw [hc] at h
        simp [hrest] at h
  · next hafter =>
    refine ⟨_, rfl, .whole ?_ hdigits⟩
    cases hc : c.isDigit with
    | true => exact digitsOf_ne_nil hc
    | false =>
      simp only [hc, Bool.false_or, Bool.and_eq_true, beq_iff_eq] at h
      obtain ⟨rfl, -⟩ := h
      exact absurd rfl (hafter s)

end Lexer
end PipeExpr
