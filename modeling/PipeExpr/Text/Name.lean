/-!
Names: an ASCII letter, `_` or `$`, and after it any number of these and of digits.
-/
namespace PipeExpr.Text

def isNameStart (c : Char) : Bool := c.isAlpha || c == '_' || c == '$'

def isNamePart (c : Char) : Bool := c.isAlphanum || c == '_' || c == '$'

def isName : List Char → Bool
  | [] => false
  | c :: s => isNameStart c && s.all isNamePart

theorem isNamePart_of_isNameStart {c : Char} (h : isNameStart c = true) : isNamePart c = true := by
  simp only [isNameStart, isNamePart, Char.isAlphanum, Bool.or_eq_true] at *
  rcases h with (h | h) | h <;> simp [h]

theorem isNamePart_of_isDigit {c : Char} (h : c.isDigit = true) : isNamePart c = true := by
  simp [isNamePart, Char.isAlphanum, h]

theorem isName_eq_cons {name : List Char} (h : isName name = true) :
    ∃ c s, name = c :: s ∧ isNameStart c = true ∧ ∀ d ∈ name, isNamePart d = true := by
  cases name with
  | nil => cases h
  | cons c s =>
    simp only [isName, Bool.and_eq_true] at h
    refine ⟨c, s, rfl, h.1, ?_⟩
    intro d hd
    cases List.mem_cons.mp hd with
    | inl heq =>
      subst heq
      exact isNamePart_of_isNameStart h.1
    | inr hd => exact List.all_eq_true.mp h.2 d hd

end PipeExpr.Text
