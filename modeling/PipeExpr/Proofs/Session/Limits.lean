import PipeExpr.Proofs.Expr.Limits
import PipeExpr.Proofs.Parser.Limits
import PipeExpr.Proofs.Session.Validation

/-!
A limit of depth refuses, and does nothing else. Whatever an engine comes to under one limit, other
than that the limit is met, it comes to under every higher one, with the same calls on the way.
-/
namespace PipeExpr.Engine
variable {α : Type} {r : Registry} {limit limit' : Nat} {text : String} {s : Session}

def forgetful (r : Registry) (limit : Nat) : Engine := ⟨r, { maxDepth := limit, cache := false }⟩

theorem parse_then_of_limit_le (hle : limit ≤ limit') {f f' : Tree → Step α}
    (hne : ((forgetful r limit).parse text >>= f).outcome s ≠ .error (.depthExceeded limit))
    (hf : ∀ (tree : Tree) (s' : Session), (f tree).outcome s' ≠ .error (.depthExceeded limit) →
      f' tree s' = f tree s') :
    ((forgetful r limit').parse text >>= f') s = ((forgetful r limit).parse text >>= f) s := by
  have hsame : (forgetful r limit).reading text ≠ .error (.depthExceeded limit) →
      (forgetful r limit').reading text = (forgetful r limit).reading text :=
    Expr.parse_of_limit_le hle
  unfold Step.outcome at hne hf
  cases hreading : (forgetful r limit).reading text with
  | error e =>
    rw [hreading] at hsame
    rw [Step.bind_error (parse_uncached_error rfl hreading)] at hne ⊢
    have hdeep : Except.error e ≠ (.error (.depthExceeded limit) : Except Error Expr) := by
      intro he
      obtain rfl := Except.error.inj he
      exact hne rfl
    rw [Step.bind_error (parse_uncached_error rfl (hsame hdeep))]
  | ok e =>
    rw [hreading] at hsame
    rw [Step.bind_ok (parse_uncached_ok rfl hreading)] at hne ⊢
    rw [Step.bind_ok (parse_uncached_ok rfl (hsame nofun))]
    exact hf _ _ hne

theorem evaluateTree_of_limit_le (hle : limit ≤ limit') {e : Expr} {context : Context}
    (hne : ((forgetful r limit).evaluateTree e context).outcome s ≠
      .error (.depthExceeded limit)) :
    (forgetful r limit').evaluateTree e context s = (forgetful r limit).evaluateTree e context s := by
  have houtcome : ((forgetful r limit).evaluateTree e context).outcome s =
      (e.evaluate r context limit).outcome := by
    unfold evaluateTree Step.ofEvaluation Step.outcome forgetful
    cases (e.evaluate r context limit).outcome with
    | ok v => rfl
    | error e' => rfl
  rw [houtcome] at hne
  have hsame := (Expr.reaches_evaluateWithin r context limit limit' hle e).eq_of_outcome hne
  unfold evaluateTree forgetful
  dsimp only
  rw [Expr.evaluate, Expr.evaluate, hsame]

theorem walk_of_limit_le (hle : limit ≤ limit') {e : Expr} {analysis : List Visit → α} (hne : Step.outcome (do
        Step.ofExcept (e.walk limit).outcome
        return analysis (e.walk limit).events) s ≠ .error (.depthExceeded limit)) :
    e.walk limit' = e.walk limit := by
  refine ((Expr.reaches_walkWithin limit limit' hle e).eq_of_outcome fun hdeep => hne ?_).symm
  have hwalk : (e.walk limit).outcome = .error (.depthExceeded limit) := hdeep
  rw [hwalk]
  rfl

/-- A higher limit changes no answer: neither a tree nor the place of a fault, neither a walk nor what
an analysis makes of it, neither a value nor an error nor the calls before it. -/
theorem answers_of_limit_le (hle : limit ≤ limit') :
    (∀ (g : Grammar) (text : String), Expr.parse g limit text ≠ .error (.depthExceeded limit) →
      Expr.parse g limit' text = Expr.parse g limit text) ∧
    (∀ e : Expr, (e.walk limit).outcome ≠ .error (.depthExceeded limit) →
      e.walk limit' = e.walk limit) ∧
    (∀ (r : Registry) (context : Context) (e : Expr),
      (e.evaluate r context limit).outcome ≠ .error (.depthExceeded limit) →
      e.evaluate r context limit' = e.evaluate r context limit) ∧
    (∀ (r : Registry) (text : String) (analysis : List Visit → α) (s : Session),
      ((forgetful r limit).analyze text analysis).outcome s ≠ .error (.depthExceeded limit) →
      (forgetful r limit').analyze text analysis s = (forgetful r limit).analyze text analysis s) ∧
    ∀ (r : Registry) (text : String) (context : Context) (s : Session),
      ((forgetful r limit).evaluate text context).outcome s ≠ .error (.depthExceeded limit) →
      (forgetful r limit').evaluate text context s = (forgetful r limit).evaluate text context s := by
  refine ⟨fun g text => Expr.parse_of_limit_le hle, ?_, ?_, ?_, ?_⟩
  · intro e hne
    exact ((Expr.reaches_walkWithin limit limit' hle e).eq_of_outcome hne).symm
  · intro r context e hne
    exact ((Expr.reaches_evaluateWithin r context limit limit' hle e).eq_of_outcome hne).symm
  · intro r text analysis s hne
    refine parse_then_of_limit_le hle hne fun tree s' hne' => ?_
    have hwalk : tree.expr.walk limit' = tree.expr.walk limit := walk_of_limit_le hle hne'
    dsimp only [forgetful]
    rw [hwalk]
  · intro r text context s hne
    exact parse_then_of_limit_le hle hne fun tree s' => evaluateTree_of_limit_le hle

/-- Two levels are enough for a transform from outside to refuse a string, and it is refused in the same
words with more. -/
theorem answers_doubled_string :
    let answer (limit : Nat) :=
      (forgetful .doubling limit).evaluate "x|double" [("x", .string "a")] .start
    Step.outcome (fun _ => answer 2) .start =
        .error (.mismatch (.reason "double expects a number")) ∧
      answer 128 = answer 2 := by
  intro answer
  have hreading : (forgetful .doubling 2).reading "x|double" =
      .ok (.transform "double" (.identifier "x") []) := parse_doubled (Nat.le_refl 2)
  have hanswer := (evaluate_of_reading (s := .start) rfl hreading [("x", .string "a")]).1
  refine ⟨hanswer, (answers_of_limit_le (α := Unit) (by decide)).2.2.2.2 _ _ _ _ ?_⟩
  rw [hanswer]
  intro hdeep
  cases hdeep

end PipeExpr.Engine
