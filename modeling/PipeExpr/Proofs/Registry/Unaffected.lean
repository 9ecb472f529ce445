import PipeExpr.Proofs.Expr.Steps
import PipeExpr.Proofs.Parser.Names
import PipeExpr.Proofs.Parser.SharedOperators
import PipeExpr.Proofs.Registry.Conduct
import PipeExpr.Proofs.Registry.Represented

/-!
What an operator does to texts that it does not stand in. It is found at no place of them, so their
tokens are the same with and without it, and so are the operators in these. None of them reads as an
expression with that operator, so evaluation does not look it up either.
-/
namespace PipeExpr

namespace Grammar
variable {g : Grammar} {token : String} {n : Nat} {text : String}

theorem symbolAt?_insertSymbol {symbols : List String} {s : List Char}
    (h : ¬token.toList <+: s) :
    Lexer.symbolAt? (insertSymbol token symbols) s = Lexer.symbolAt? symbols s := by
  have hskip : token.toList.isPrefixOf s = false := by
    rwa [Bool.eq_false_iff, ne_eq, List.isPrefixOf_iff_prefix]
  unfold Lexer.symbolAt?
  induction symbols with
  | nil => simp [insertSymbol, hskip]
  | cons symbol rest ih =>
    rw [insertSymbol]
    split
    · rw [List.find?_cons, hskip]
    · rw [List.find?_cons, List.find?_cons, ih]

theorem symbolAt?_insert {s : List Char} (h : ¬token.toList <+: s) :
    Lexer.symbolAt? (g.insert token n).symbols s = Lexer.symbolAt? g.symbols s := by
  rw [insert]
  split
  · rfl
  · exact symbolAt?_insertSymbol h

theorem operator?_insert {t : Token} (h : ∀ o : OperatorName, t = o.token → o.text ≠ token) :
    Parser.operator? (g.insert token n) t = Parser.operator? g t := by
  unfold Parser.operator?
  cases ho : OperatorName.ofToken? t with
  | none => rfl
  | some o =>
    have hne := h o (OperatorName.ofToken?_eq_some.mp ho)
    simp only [Option.bind_eq_bind, Option.bind_some, precedence?_insert, if_neg hne]

theorem parse_insert (hg : g.Sound) (hcheck : Registry.checkOperatorToken token = .ok ())
    (habsent : ¬token.toList <:+: text.toList) (limit : Nat) :
    Expr.parse (g.insert token n) limit text = Expr.parse g limit text := by
  have hsymbols := Lexer.empty_notMem_symbols hg
  refine Expr.parse_of_shared ?_ ?_ limit
  · refine lexemes_congr hsymbols (Lexer.empty_notMem_symbols (hg.insert hcheck)) fun s hs => ?_
    exact symbolAt?_insert fun hfront => habsent (hfront.isInfix.trans hs.isInfix)
  · intro lexeme hmem t ht
    refine operator?_insert ?_
    rintro o rfl rfl
    exact habsent (operator_infix_of_mem_lexemes hsymbols hmem ht)

end Grammar

namespace Expr

/-- An evaluation looks up no other operators than those in the expression. -/
theorem evaluateWithin_insertOperator {r : Registry} {token : String} {n : Nat}
    {operation : Operation} (context : Context) (limit levels : Nat) {e : Expr}
    (h : ∀ left right, .binary token left right ∉ e.nodes) :
    evaluateWithin (r.insertOperator token n operation) context limit levels e =
      evaluateWithin r context limit levels e := by
  induction levels generalizing e with
  | zero => rfl
  | succ levels ih =>
    have hlook : LooksUpAlike (r.insertOperator token n operation) r context context e := by
      refine ⟨rfl, ?_, fun name _ _ _ => Registry.transform?_insertOperator _ _ _ name r⟩
      rintro operator left right rfl
      have hne : operator ≠ token := by
        rintro rfl
        exact h left right (self_mem_nodes _)
      rw [Registry.operator?_insertOperator, if_neg hne]
    rw [evaluateWithin_succ, evaluateWithin_succ]
    exact step_related Traced.stepwise_eq hlook fun part hpart =>
      ih fun left right hnode => h left right (nodes_subset_of_part hpart hnode)

end Expr

namespace Registry

/-- A registered operator makes no difference to a text that it does not stand in, neither to what the
text is read as or refused for, nor to what comes of evaluating it. -/
theorem unaffected_of_absent (b : Base) (calls : List Registration) {token : String} {n : Nat}
    {f : Value → Value → Except Error Value} {r : Registry}
    (h : (b.after calls).registerOperator token n f = .ok r) {text : String}
    (habsent : ¬token.toList <:+: text.toList) (limit : Nat) :
    Expr.parse r.grammar limit text = Expr.parse (b.after calls).grammar limit text ∧
      ∀ e, Expr.parse (b.after calls).grammar limit text = .ok e → ∀ context limit',
        e.evaluate r context limit' = e.evaluate (b.after calls) context limit' := by
  have hsound := (built_after b calls).sound
  obtain ⟨hcheck, -, rfl⟩ := registerOperator_eq_ok.mp h
  refine ⟨Grammar.parse_insert hsound hcheck habsent limit, ?_⟩
  intro e hparse context limit'
  refine Expr.evaluateWithin_insertOperator context limit' limit' fun left right hnode => ?_
  exact habsent (Expr.operator_infix_of_parse hsound hparse hnode)

/-- The symbol `=~` beside `==`. The text calls a transform from outside, which refuses in the same words
with the symbol and without it. -/
theorem unaffected_doubled :
    let base := Base.standard.after [.transform "double" .double]
    let similar := fun _ _ : Value => Except.error (.mismatch (.reason "=~ compares strings"))
    let tree : Expr := .binary "==" (.transform "double" (.identifier "x") []) (.identifier "y")
    ∃ r, base.registerOperator "=~" 20 similar = .ok r ∧
      Expr.parse r.grammar 16 "x|double == y" = .ok tree ∧
      (tree.evaluate r [("x", .string "a")] 16).outcome =
        .error (.mismatch (.reason "double expects a number")) := by
  intro base similar tree
  have hadmitted : base.registerOperator "=~" 20 similar = .ok _ :=
    registerOperator_eq_ok.mpr ⟨rfl, by decide, rfl⟩
  have hsymbols : base.grammar.symbols = _ := symbols_standard
  have hlexes : LexesTo base.grammar.symbols "x|double == y"
      [.identifier "x", .mark .pipe, .identifier "double", .operator "==", .identifier "y"] := by
    rw [LexesTo, hsymbols]
    rfl
  have hknown : base.grammar.precedence? "==" = some 20 := rfl
  have hparse : Expr.parse base.grammar 16 "x|double == y" = .ok tree :=
    Expr.parse_settled (p := .binary (.symbol "==") (.pipe (.leaf (.identifier "x")) "double")
      (.leaf (.identifier "y"))) hlexes (by decide)
      (.binary hknown (.pipe "double" (.leaf _) rfl) (.leaf _) trivial trivial) rfl
  have habsent : ¬"=~".toList <:+: "x|double == y".toList := by decide +kernel
  obtain ⟨hread, hevaluated⟩ :=
    unaffected_of_absent .standard [.transform "double" .double] hadmitted habsent 16
  refine ⟨_, hadmitted, hread.trans hparse, ?_⟩
  rw [hevaluated tree hparse]
  rfl

end Registry
end PipeExpr
