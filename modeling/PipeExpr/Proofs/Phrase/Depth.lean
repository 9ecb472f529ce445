import PipeExpr.Proofs.Phrase.Tokens

/-!
How many levels a parser needs for a phrase. Steps of a path and folds of operators add up along the
left edge of a phrase, everything else is nested. Twice the number of tokens is always enough.
-/
namespace PipeExpr.Phrase

def steps : Phrase → Nat
  | .dot target _ => target.steps + 1
  | .index target _ => target.steps + 1
  | .pipe subject _ => subject.steps + 1
  | .call subject _ _ => subject.steps + 1
  | _ => 0

def folds : Phrase → Nat
  | .binary _ left _ => left.folds + 1
  | _ => 0

mutual
/-- The levels below the one on which a phrase stands. -/
def depth : Phrase → Nat
  | .leaf _ => 0
  | .group inner => inner.depth + 1
  | .array items => itemsDepth items
  | .object fields => fieldsDepth fields
  | .dot target _ => max target.depth (target.steps + 1)
  | .index target key => max target.depth (target.steps + 1 + (key.depth + 1))
  | .pipe subject _ => max subject.depth (subject.steps + 1)
  | .call subject _ arguments =>
    max subject.depth (subject.steps + 1 + itemsDepth arguments)
  | .signed _ operand => operand.depth + 1
  | .binary _ left right => max left.depth (left.folds + 1 + right.depth)
  | .conditional test consequent alternate =>
    max test.depth (max (consequent.depth + 1) (alternate.depth + 1))

def itemsDepth : List Phrase → Nat
  | [] => 0
  | p :: rest => max (p.depth + 1) (itemsDepth rest)

def fieldsDepth : List (FieldKey × Phrase) → Nat
  | [] => 0
  | (_, p) :: rest => max (p.depth + 1) (fieldsDepth rest)
end

theorem itemsDepth_le {items : List Phrase} {n : Nat} :
    itemsDepth items ≤ n ↔ ∀ p ∈ items, p.depth + 1 ≤ n := by
  induction items with
  | nil => simp [itemsDepth]
  | cons p rest ih => simp only [itemsDepth, Nat.max_le, ih, List.forall_mem_cons]

theorem fieldsDepth_le {fields : List (FieldKey × Phrase)} {n : Nat} :
    fieldsDepth fields ≤ n ↔ ∀ f ∈ fields, f.2.depth + 1 ≤ n := by
  induction fields with
  | nil => simp [fieldsDepth]
  | cons f rest ih => simp only [fieldsDepth, Nat.max_le, ih, List.forall_mem_cons]

theorem folds_of_isOperand {p : Phrase} (h : p.isOperand = true) : p.folds = 0 := by
  cases p <;> simp_all [isOperand, folds]

theorem steps_le_length (p : Phrase) : p.steps ≤ p.tokens.length := by
  fun_induction steps p with
  | case1 target name ih => simp only [tokens, List.length_append, List.length_cons]; omega
  | case2 target key ih => simp only [tokens, List.length_append, List.length_cons]; omega
  | case3 subject name ih => simp only [tokens, List.length_append, List.length_cons]; omega
  | case4 subject name arguments ih =>
    simp only [tokens, List.length_append, List.length_cons]; omega
  | case5 => exact Nat.zero_le _

theorem folds_le_length (p : Phrase) : p.folds ≤ p.tokens.length := by
  fun_induction folds p with
  | case1 operator left right ih =>
    simp only [tokens, List.length_append, List.length_cons]; omega
  | case2 => exact Nat.zero_le _

theorem itemsDepth_le_length {items : List Phrase}
    (h : ∀ p ∈ items, p.depth ≤ 2 * p.tokens.length) :
    itemsDepth items ≤ 2 * (itemTokens items).length + 1 := by
  rw [itemsDepth_le, itemTokens_eq]
  intro p hp
  have hd := h p hp
  have hl := (infix_separated tokens hp).length_le
  omega

theorem fieldsDepth_le_length {fields : List (FieldKey × Phrase)}
    (h : ∀ f ∈ fields, f.2.depth ≤ 2 * f.2.tokens.length) :
    fieldsDepth fields ≤ 2 * (fieldTokens fields).length + 1 := by
  rw [fieldsDepth_le, fieldTokens_eq]
  intro f hf
  have hd := h f hf
  have hl := (infix_separated entryTokens hf).length_le
  simp only [entryTokens, List.length_cons] at hl
  omega

/-- A level is entered at a token, and no token enters more than two. -/
theorem Fits.depth_le_length {g : Grammar} {p : Phrase} (h : p.Fits g) :
    p.depth ≤ 2 * p.tokens.length := by
  induction h with
  | leaf l => exact Nat.zero_le _
  | group _ ih =>
    simp only [depth, tokens, List.length_append, List.length_cons]; omega
  | array _ ih =>
    have := itemsDepth_le_length ih
    simp only [depth, tokens, List.length_append, List.length_cons]; omega
  | object _ ih =>
    have := fieldsDepth_le_length ih
    simp only [depth, tokens, List.length_append, List.length_cons]; omega
  | @dot target name _ ih =>
    have := steps_le_length target
    simp only [depth, tokens, List.length_append, List.length_cons]; omega
  | @index target key _ _ iht ihk =>
    have := steps_le_length target
    simp only [depth, tokens, List.length_append, List.length_cons]; omega
  | @pipe subject name _ ih =>
    have := steps_le_length subject
    simp only [depth, tokens, List.length_append, List.length_cons]; omega
  | @call subject name arguments _ _ ihs iha =>
    have := steps_le_length subject
    have := itemsDepth_le_length iha
    simp only [depth, tokens, List.length_append, List.length_cons]; omega
  | signed sign _ ih => simp only [depth, tokens, List.length_cons]; omega
  | @binary operator left right precedence _ _ _ ihl ihr =>
    have := folds_le_length left
    simp only [depth, tokens, List.length_append, List.length_cons]; omega
  | conditional _ _ _ iht ihc iha =>
    simp only [depth, tokens, List.length_append, List.length_cons]; omega

end PipeExpr.Phrase
