import PipeExpr.Form.Engine
import PipeExpr.Proofs.Grammar.Sound
import PipeExpr.Workflow.Engine

/-!
The registries that registrations lead to. Their grammars are sound, and those that the library
provides are among them.
-/
namespace PipeExpr.Registry

/-- A registry to start from, and what registrations make of it. -/
inductive Built : Registry → Prop where
  | empty : Built .empty
  | operatorsOnly : Built .operatorsOnly
  | standard : Built .standard
  | transform {r r' : Registry} {name : String} {t : Transform} : Built r →
      r.registerTransform name t = .ok r' → Built r'
  | validatedTransform {r r' : Registry} {name : String} {rule : SubjectRule} {t : Transform} :
      Built r → r.registerValidatedTransform name rule t = .ok r' → Built r'
  | operator {r r' : Registry} {token : String} {n : Nat} {f : Value → Value → Except Error Value} :
      Built r → r.registerOperator token n f = .ok r' → Built r'

theorem registerTransform_eq_ok {name : String} {t : Transform} {r r' : Registry} :
    r.registerTransform name t = .ok r' ↔
      checkTransformName name = .ok () ∧ r' = r.insertTransform name t none := by
  unfold registerTransform
  cases h : checkTransformName name with
  | error e => simp [bind, Except.bind]
  | ok _ => simp [bind, Except.bind, pure, Except.pure, eq_comm]

theorem registerValidatedTransform_eq_ok {name : String} {rule : SubjectRule} {t : Transform}
    {r r' : Registry} :
    r.registerValidatedTransform name rule t = .ok r' ↔
      checkTransformName name = .ok () ∧ r' = r.insertTransform name t (some rule) := by
  unfold registerValidatedTransform
  cases h : checkTransformName name with
  | error e => simp [bind, Except.bind]
  | ok _ => simp [bind, Except.bind, pure, Except.pure, eq_comm]

theorem registerOperator_eq_ok {token : String} {n : Nat} {f : Value → Value → Except Error Value}
    {r r' : Registry} :
    r.registerOperator token n f = .ok r' ↔
      checkOperatorToken token = .ok () ∧ n ≠ 0 ∧ r' = r.insertOperator token n (.function f) := by
  unfold registerOperator
  cases h : checkOperatorToken token with
  | error e => simp [bind, Except.bind]
  | ok _ =>
    by_cases hn : n = 0
    · simp [bind, Except.bind, hn, throw, throwThe, MonadExceptOf.throw]
    · simp [bind, Except.bind, pure, Except.pure, hn, eq_comm]

theorem sound_operatorsOnly : operatorsOnly.grammar.Sound := by
  have hchecked : ∀ o ∈ standardOperators, checkOperatorToken o.1 = .ok () := by
    simp only [standardOperators, List.forall_mem_cons]
    refine ⟨rfl, rfl, rfl, rfl, rfl, rfl, rfl, rfl, rfl, rfl, rfl, rfl, rfl, rfl, rfl, rfl, ?_⟩
    simp
  exact List.foldlRecOn (motive := fun r : Registry => r.grammar.Sound) standardOperators _
    Grammar.sound_empty fun _ h o ho => h.insert (hchecked o ho)

theorem grammar_standard : standard.grammar = operatorsOnly.grammar := rfl

/-- The standard symbols in the order in which the lexer tries them. -/
theorem symbols_standard : standard.grammar.symbols =
    ["!=", "&&", "//", "<=", "==", ">=", "||", "%", "*", "+", "-", "/", "<", ">", "^"] := rfl

theorem symbols_form (d : Document) : (form d).grammar.symbols = standard.grammar.symbols := by
  have hinsert : (form d).grammar = standard.grammar.insert "intersects" 20 := rfl
  have hword : Grammar.isWord "intersects" = true := rfl
  rw [hinsert, Grammar.insert, hword, Bool.true_or, if_pos rfl]

theorem Built.sound {r : Registry} (h : r.Built) : r.grammar.Sound := by
  induction h with
  | empty => exact Grammar.sound_empty
  | operatorsOnly => exact sound_operatorsOnly
  | standard =>
    rw [grammar_standard]
    exact sound_operatorsOnly
  | transform _ hr ih =>
    obtain ⟨-, rfl⟩ := registerTransform_eq_ok.mp hr
    exact ih
  | validatedTransform _ hr ih =>
    obtain ⟨-, rfl⟩ := registerValidatedTransform_eq_ok.mp hr
    exact ih
  | operator _ hr ih =>
    obtain ⟨hcheck, -, rfl⟩ := registerOperator_eq_ok.mp hr
    exact ih.insert hcheck

theorem Built.insertTransform {r : Registry} (h : r.Built) {name : String}
    (hname : checkTransformName name = .ok ()) (t : Transform) (rule : Option SubjectRule) :
    (r.insertTransform name t rule).Built := by
  cases rule with
  | none => exact .transform h (registerTransform_eq_ok.mpr ⟨hname, rfl⟩)
  | some rule => exact .validatedTransform h (registerValidatedTransform_eq_ok.mpr ⟨hname, rfl⟩)

theorem built_form (d : Document) : (form d).Built := by
  have hanswer := Built.standard.insertTransform (rfl : checkTransformName "answer" = .ok ())
    d.answerTransform (some .stringLiteral)
  have hmapby := hanswer.insertTransform (rfl : checkTransformName "mapby" = .ok ())
    (.silent Transform.mapby) none
  exact .operator hmapby (registerOperator_eq_ok.mpr ⟨rfl, by decide, rfl⟩)

theorem built_flow : flow.Built := by
  have htask := Built.standard.insertTransform (rfl : checkTransformName "task" = .ok ())
    (.silent Transform.task) (some .stringLiteral)
  exact htask.insertTransform rfl (.silent (Transform.slugList "tasks")) (some .stringArrayLiteral)

theorem built_group : group.Built :=
  Built.standard.insertTransform rfl (.silent (Transform.slugList "groups"))
    (some .stringArrayLiteral)

end PipeExpr.Registry
