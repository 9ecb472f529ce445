import PipeExpr.Proofs.Lexer.Context
import PipeExpr.Proofs.Parser.Language

/-!
What precedences decide. Of all derivations of its tokens a text is read as the only one in which
every operand binds as tightly as it has to. An operator of the highest precedence takes no operation
as its right operand.
-/
namespace PipeExpr

/-- Where an operator would have to bind more tightly than all of them, there is an operand and no
operation. So `unary` reads the right operand of an operator of the highest precedence. -/
theorem Parser.binary_above {g : Grammar} {least : Nat}
    (h : ∀ token n, g.precedence? token = some n → n < least) (limit levels : Nat) :
    binary g limit least levels = unary g limit levels := by
  have hfolds : ∀ left, folds g limit least left levels = pure left := by
    intro left
    funext s
    have hstops : Stops g least s := fun operator n ho => h _ n (operator?_eq_some.mp ho).2
    exact folds_of_stops hstops limit left levels
  rw [binary]
  simp only [hfolds, bind_pure]

/-- A text that is read has one derivation that its precedences admit, and it is read as that one: in
all others a sign or an operation stands where a tighter operand has to stand, or operations of one
precedence lean to the right. -/
theorem Expr.parse_only_settled {r : Registry} (hr : r.Built) {limit : Nat} {text : String}
    {e : Expr} (h : Expr.parse r.grammar limit text = .ok e) :
    ∃ p : Phrase, Phrase.parse r.grammar limit text = .ok p ∧ p.expr = e ∧
      LexesTo r.grammar.symbols text p.tokens ∧ p.Fits r.grammar ∧
      ∀ q : Phrase, q.Fits r.grammar → q.tokens = p.tokens → (q.Settled r.grammar ↔ q = p) := by
  obtain ⟨p, hp, he⟩ := parse_eq_ok_iff.mp h
  have hlexes := Phrase.lexesTo_of_parse (Lexer.empty_notMem_symbols hr.sound) hp
  obtain ⟨hsettled, -, -⟩ := (Phrase.parse_eq_ok_iff hlexes).mp hp
  refine ⟨p, hp, he, hlexes, hsettled.fits, ?_⟩
  intro q _ htokens
  constructor
  · intro hq
    exact Phrase.Settled.unique hlexes hq htokens hsettled rfl
  · intro heq
    rw [heq]
    exact hsettled

theorem Expr.parse_only_settled_tightest :
    let r := Registry.standard.insertOperator "tightest" 255 (.function fun _ _ => .ok .null)
    let g := r.grammar
    ∃ p : Phrase, Phrase.parse g 128 "a tightest b tightest c * d" = .ok p ∧
      p.expr = .binary "*" (.binary "tightest" (.binary "tightest" (.identifier "a")
        (.identifier "b")) (.identifier "c")) (.identifier "d") ∧
      ∀ q : Phrase, q.Fits g → q.tokens = p.tokens → (q.Settled g ↔ q = p) := by
  intro r g
  have hbuilt : r.Built :=
    .operator .standard (Registry.registerOperator_eq_ok.mpr ⟨rfl, by decide, rfl⟩)
  have hlexes : LexesTo g.symbols "a tightest b tightest c * d"
      [.identifier "a", .identifier "tightest", .identifier "b", .identifier "tightest",
        .identifier "c", .operator "*", .identifier "d"] := by
    have hsymbols : g.symbols = Registry.standard.grammar.symbols := rfl
    rw [LexesTo, hsymbols, Registry.symbols_standard]
    rfl
  have htightest : g.precedence? "tightest" = some 255 := rfl
  have htimes : g.precedence? "*" = some 40 := rfl
  have hparse : Expr.parse g 128 "a tightest b tightest c * d" =
      .ok (.binary "*" (.binary "tightest" (.binary "tightest" (.identifier "a") (.identifier "b"))
        (.identifier "c")) (.identifier "d")) := by
    have hinner : (Phrase.binary (.word "tightest") (.leaf (.identifier "a"))
        (.leaf (.identifier "b"))).Settled g :=
      .binary htightest (.leaf _) (.leaf _) trivial trivial
    have hleft : (Phrase.binary (.word "tightest") (.binary (.word "tightest")
        (.leaf (.identifier "a")) (.leaf (.identifier "b"))) (.leaf (.identifier "c"))).Settled g :=
      .binary htightest hinner (.leaf _) ⟨255, htightest, by decide⟩ trivial
    have hwhole : (Phrase.binary (.symbol "*") _ (.leaf (.identifier "d"))).Settled g :=
      .binary htimes hleft (.leaf _) ⟨255, htightest, by decide⟩ trivial
    exact Expr.parse_settled hlexes (by decide) hwhole rfl
  obtain ⟨p, hp, he, -, -, honly⟩ := parse_only_settled hbuilt hparse
  exact ⟨p, hp, he, honly⟩

end PipeExpr
