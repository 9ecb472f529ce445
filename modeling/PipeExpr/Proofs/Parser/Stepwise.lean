import PipeExpr.Expr.Parser

/-!
The parser step by step. A relation between the parsers of two grammars that holds of the steps and
goes from them to what is made of them holds of the whole parsers. What a parser keeps of its state is
such a relation too, of the parser and itself.
-/
namespace PipeExpr.Parser
variable {α : Type} {g g' : Grammar} {limit levels : Nat} {p p' : Parse α}

/-- A relation that the steps on one level are in, and that goes from them to what is made of them. -/
structure OnLevel (R : (α : Type) → Parse α → Parse α → Prop) : Prop where
  bind : ∀ {α β : Type} {p p' : Parse α} {f f' : α → Parse β}, R α p p' →
    (∀ a, R β (f a) (f' a)) → R β (p >>= f) (p' >>= f')
  pure : ∀ {α : Type} (a : α), R α (pure a) (pure a)
  refuse : ∀ {α : Type} (fault : SyntaxFault), R α (refuse fault) (refuse fault)
  ahead : R Token ahead ahead
  tokensLeft : R Nat tokensLeft tokensLeft
  advance : R Unit advance advance

/-- A relation that the steps of the parsers are in, and that goes from the steps to the whole. -/
structure Stepwise (g g' : Grammar) (limit : Nat) (R : (α : Type) → Parse α → Parse α → Prop) : Prop
    extends OnLevel R where
  thenAscend : ∀ {α : Type} {p p' : Parse α}, R α p p' → R α (thenAscend p) (thenAscend p')
  tooDeep : ∀ {α : Type}, R α (tooDeep limit) (tooDeep limit)
  descend : R Unit (descend limit) (descend limit)
  ascend : R Unit ascend ascend
  operatorAhead : ∀ least, R _ (operatorAhead g least) (operatorAhead g' least)

namespace OnLevel
variable {R : (α : Type) → Parse α → Parse α → Prop} (hR : OnLevel R)
include hR

theorem refuseAhead (what : Expectation) : R α (refuseAhead what) (refuseAhead what) :=
  hR.bind hR.ahead fun token => hR.refuse (.expected what token)

theorem expect (mark : Mark) (what : Expectation) :
    R Unit (expect mark what) (expect mark what) := by
  unfold Parser.expect
  refine hR.bind hR.ahead fun token => ?_
  split
  · exact hR.advance
  · exact hR.refuseAhead what

theorem propertyName : R MemberName propertyName propertyName := by
  unfold Parser.propertyName
  refine hR.bind hR.ahead fun token => ?_
  split
  · exact hR.pure _
  · exact hR.refuseAhead _

theorem transformName : R String transformName transformName := by
  unfold Parser.transformName
  refine hR.bind hR.ahead fun token => ?_
  split
  · exact hR.pure _
  · exact hR.refuseAhead _

theorem objectKey : R FieldKey objectKey objectKey := by
  unfold Parser.objectKey
  refine hR.bind hR.ahead fun token => ?_
  split
  · exact hR.pure _
  · exact hR.refuseAhead _

theorem operatorAhead_self (g : Grammar) (least : Nat) :
    R _ (operatorAhead g least) (operatorAhead g least) := by
  unfold Parser.operatorAhead
  refine hR.bind hR.ahead fun token => ?_
  split
  · exact hR.pure _
  · exact hR.pure _

theorem items (hp : R α p p') (close : Mark) (what : Expectation) (rounds : Nat) :
    R (List α) (items close what p rounds) (items close what p' rounds) := by
  induction rounds with
  | zero => exact hR.refuseAhead what
  | succ rounds ih =>
    rw [Parser.items, Parser.items]
    refine hR.bind hp fun a => hR.bind hR.ahead fun token => ?_
    split
    · exact hR.bind hR.advance fun _ => hR.bind ih fun rest => hR.pure _
    · split
      · exact hR.bind hR.advance fun _ => hR.pure _
      · exact hR.refuseAhead what

theorem listOf (hp : R α p p') (close : Mark) (what : Expectation) :
    R (List α) (listOf close what p) (listOf close what p') := by
  unfold Parser.listOf
  refine hR.bind hR.ahead fun token => ?_
  split
  · exact hR.bind hR.advance fun _ => hR.pure _
  · exact hR.bind hR.tokensLeft fun rounds => hR.items hp close what rounds

theorem entry {p p' : Parse Phrase} (hp : R Phrase p p') :
    R (FieldKey × Phrase) (entry p) (entry p') := by
  unfold Parser.entry
  refine hR.bind hR.objectKey fun key => hR.bind hR.advance fun _ => ?_
  exact hR.bind (hR.expect _ _) fun _ => hR.bind hp fun a => hR.pure _

end OnLevel

namespace Stepwise
variable {R : (α : Type) → Parse α → Parse α → Prop} (hR : Stepwise g g' limit R)
include hR

theorem atom (he : R Phrase (expression g limit levels) (expression g' limit levels)) :
    R Phrase (atom g limit levels) (atom g' limit levels) := by
  rw [Parser.atom, Parser.atom]
  refine hR.bind hR.ahead fun token => ?_
  split
  · refine hR.bind hR.advance fun _ => hR.bind he fun inner => ?_
    exact hR.bind (hR.expect _ _) fun _ => hR.pure _
  · exact hR.bind hR.advance fun _ => hR.bind (hR.listOf he _ _) fun items => hR.pure _
  · exact hR.bind hR.advance fun _ => hR.bind (hR.listOf (hR.entry he) _ _) fun fields => hR.pure _
  · split
    · exact hR.bind hR.advance fun _ => hR.pure _
    · exact hR.refuse _

theorem step (he : R Phrase (expression g limit levels) (expression g' limit levels))
    (node : Phrase) (mark : Mark) :
    R Phrase (step g limit node mark levels) (step g' limit node mark levels) := by
  rw [step.eq_def, step.eq_def]
  split
  · exact hR.bind hR.propertyName fun name => hR.bind hR.advance fun _ => hR.pure _
  · exact hR.bind he fun key => hR.bind (hR.expect _ _) fun _ => hR.pure _
  · refine hR.bind hR.transformName fun name => hR.bind hR.advance fun _ =>
      hR.bind hR.ahead fun token => ?_
    split
    · exact hR.bind hR.advance fun _ => hR.bind (hR.listOf he _ _) fun arguments => hR.pure _
    · exact hR.pure _

theorem steps (he : ∀ k < levels, R Phrase (expression g limit k) (expression g' limit k))
    (node : Phrase) : R Phrase (steps g limit node levels) (steps g' limit node levels) := by
  induction levels using Nat.strongRecOn generalizing node with
  | ind levels ih =>
    rw [steps.eq_def g, steps.eq_def g']
    refine hR.bind hR.ahead fun token => ?_
    cases step? token with
    | none => exact hR.pure _
    | some mark =>
      refine hR.bind hR.descend fun _ => ?_
      cases levels with
      | zero => exact hR.tooDeep
      | succ levels =>
        have hlt := Nat.lt_succ_self levels
        refine hR.bind hR.advance fun _ => hR.bind (hR.step (he levels hlt) node mark) fun next => ?_
        refine hR.bind (ih levels hlt (fun k hk => he k (Nat.lt_succ_of_lt hk)) next) fun result => ?_
        exact hR.bind hR.ascend fun _ => hR.pure _

theorem path (he : ∀ k ≤ levels, R Phrase (expression g limit k) (expression g' limit k)) :
    R Phrase (path g limit levels) (path g' limit levels) := by
  rw [Parser.path, Parser.path]
  refine hR.bind (hR.atom (he levels (Nat.le_refl _))) fun start => ?_
  exact hR.steps (fun k hk => he k (Nat.le_of_lt hk)) start

theorem unary (he : ∀ k ≤ levels, R Phrase (expression g limit k) (expression g' limit k)) :
    R Phrase (unary g limit levels) (unary g' limit levels) := by
  induction levels using Nat.strongRecOn with
  | ind levels ih =>
    rw [unary.eq_def g, unary.eq_def g']
    refine hR.bind hR.ahead fun token => ?_
    cases Sign.ofToken? token with
    | none => exact hR.path he
    | some sign =>
      refine hR.bind hR.advance fun _ => hR.bind hR.descend fun _ => ?_
      cases levels with
      | zero => exact hR.tooDeep
      | succ levels =>
        have hoperand := ih levels (Nat.lt_succ_self levels) fun k hk => he k (Nat.le_succ_of_le hk)
        exact hR.bind (hR.thenAscend hoperand) fun operand => hR.pure _

theorem binary (he : ∀ k ≤ levels, R Phrase (expression g limit k) (expression g' limit k))
    (hf : ∀ least left, R Phrase (folds g limit least left levels) (folds g' limit least left levels))
    (least : Nat) : R Phrase (binary g limit least levels) (binary g' limit least levels) := by
  rw [Parser.binary, Parser.binary]
  exact hR.bind (hR.unary he) fun left => hf least left

theorem folds (he : ∀ k < levels, R Phrase (expression g limit k) (expression g' limit k))
    (least : Nat) (left : Phrase) :
    R Phrase (folds g limit least left levels) (folds g' limit least left levels) := by
  induction levels using Nat.strongRecOn generalizing least left with
  | ind levels ih =>
    rw [folds.eq_def g, folds.eq_def g']
    refine hR.bind (hR.operatorAhead least) fun found => ?_
    cases found with
    | none => exact hR.pure _
    | some o =>
      obtain ⟨operator, precedence⟩ := o
      refine hR.bind hR.advance fun _ => hR.bind hR.descend fun _ => ?_
      cases levels with
      | zero => exact hR.tooDeep
      | succ levels =>
        have hbelow : ∀ k ≤ levels, R Phrase (expression g limit k) (expression g' limit k) :=
          fun k hk => he k (Nat.lt_succ_of_le hk)
        have hf := ih levels (Nat.lt_succ_self levels) fun k hk => hbelow k (Nat.le_of_lt hk)
        refine hR.bind (hR.binary hbelow hf (precedence + 1)) fun right => ?_
        refine hR.bind (hf least (.binary operator left right)) fun result => ?_
        exact hR.bind hR.ascend fun _ => hR.pure _

theorem conditional (he : ∀ k ≤ levels, R Phrase (expression g limit k) (expression g' limit k)) :
    R Phrase (conditional g limit levels) (conditional g' limit levels) := by
  have hbranch := he levels (Nat.le_refl _)
  have hf := hR.folds fun k hk => he k (Nat.le_of_lt hk)
  rw [Parser.conditional, Parser.conditional]
  refine hR.bind (hR.binary he hf 0) fun test => hR.bind hR.ahead fun token => ?_
  split
  · refine hR.bind hR.advance fun _ => hR.bind hbranch fun consequent => ?_
    exact hR.bind (hR.expect _ _) fun _ => hR.bind hbranch fun alternate => hR.pure _
  · exact hR.pure _

/-- On the levels that are left, once the relation holds on all lower numbers of them. -/
theorem expression (levels : Nat) :
    R Phrase (expression g limit levels) (expression g' limit levels) := by
  induction levels using Nat.strongRecOn with
  | ind levels ih =>
    cases levels with
    | zero =>
      rw [expression.eq_def g, expression.eq_def g']
      exact hR.bind hR.descend fun _ => hR.tooDeep
    | succ levels =>
      rw [Parser.expression, Parser.expression]
      refine hR.bind hR.descend fun _ => hR.thenAscend ?_
      exact hR.conditional fun k hk => ih k (Nat.lt_succ_of_le hk)

theorem whole : R Phrase (whole g limit) (whole g' limit) := by
  unfold Parser.whole
  refine hR.bind hR.ahead fun token => ?_
  split
  · exact hR.refuse _
  · refine hR.bind (hR.expression limit) fun p => hR.bind hR.ahead fun token => ?_
    split
    · exact hR.pure _
    · exact hR.refuse _

end Stepwise
end PipeExpr.Parser
