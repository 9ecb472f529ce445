import PipeExpr.Proofs.Expr.Limits
import PipeExpr.Proofs.Parser.Language
import PipeExpr.Proofs.Parser.Limits
import PipeExpr.Proofs.Render.Writing

/-!
How high the expressions are that a parser reads within its limit. The peak is reached by a tower: on
every level an array of the floor below, as many members and operations around it as there are levels,
and a condition on top.
-/
namespace PipeExpr
open Lexer

/-- A phrase that is read within `levels` below its own, has an expression of the given height, and
can be written. -/
structure Phrase.Raised (g : Grammar) (levels height : Nat) (p : Phrase) : Prop where
  settled : p.Settled g
  depth : p.depth ≤ levels
  height : p.expr.height = height
  spells : ∃ s, Spells g.symbols s p.tokens

namespace Phrase
variable {g : Grammar} {levels height : Nat} {p : Phrase}

theorem raised_name (g : Grammar) (levels : Nat) :
    Raised g levels 1 (.leaf (.identifier "x")) where
  settled := .leaf _
  depth := Nat.zero_le _
  height := rfl
  spells := ⟨['x'], spells_name g.symbols (by decide : Text.isName "x".toList = true)⟩

theorem Raised.height_pos (h : Raised g levels height p) : 0 < height :=
  h.height ▸ p.expr.height_pos

theorem Raised.array (hg : g.Sound) (h : Raised g levels height p) :
    Raised g (levels + 1) (height + 1) (.array [p]) := by
  obtain ⟨s, hs⟩ := h.spells
  refine ⟨.array (by simpa using h.settled), ?_, ?_, ⟨_, spells_brackets hg hs⟩⟩
  · simpa [Phrase.depth, itemsDepth] using h.depth
  · simp [expr, exprs, Expr.height, Expr.heights, h.height]

theorem Raised.dot (hg : g.Sound) (h : Raised g levels height p) (hpath : p.isPath = true)
    (hsteps : p.steps + 1 ≤ levels) : Raised g levels (height + 1) (.dot p (.word "x")) := by
  obtain ⟨s, hs⟩ := h.spells
  have hname : Text.isName "x".toList = true := by decide
  have hpos := h.height_pos
  refine ⟨.dot _ h.settled hpath, ?_, ?_, ⟨_, spells_dotted hg hs hname⟩⟩
  · exact Nat.max_le.mpr ⟨h.depth, hsteps⟩
  · simp only [expr, Expr.height, h.height]
    omega

theorem Raised.conditional (hg : g.Sound) (h : Raised g (levels + 1) height p)
    (hconditional : p.isConditional = false) : Raised g (levels + 1) (height + 1)
      (.conditional p (.leaf (.identifier "x")) (.leaf (.identifier "x"))) := by
  obtain ⟨s, hs⟩ := h.spells
  obtain ⟨x, hx⟩ := (raised_name g levels).spells
  have hpos := h.height_pos
  have hdepth := h.depth
  refine ⟨.conditional h.settled hconditional (.leaf _) (.leaf _), ?_, ?_,
    ⟨_, spells_conditional hg hs hx hx⟩⟩
  · simp only [Phrase.depth]
    omega
  · simp only [expr, Leaf.expr, Expr.height, h.height]
    omega

/-- Each member makes a path one higher, up to as many as there are levels. -/
theorem exists_members (hg : g.Sound) (h : Raised g levels height p) (hpath : p.isPath = true)
    (hsteps : p.steps = 0) {n : Nat} (hn : n ≤ levels) :
    ∃ q : Phrase, q.Raised g levels (height + n) ∧ q.isPath = true ∧ q.steps = n := by
  induction n with
  | zero => exact ⟨p, h, hpath, hsteps⟩
  | succ n ih =>
    obtain ⟨q, hq, hqpath, hqsteps⟩ := ih (Nat.le_of_succ_le hn)
    exact ⟨_, hq.dot hg hqpath (by omega), rfl, congrArg (· + 1) hqsteps⟩

section Operator
variable {operator : String} (hknown : (g.precedence? operator).isSome = true)
  (hkeyword : Keyword.ofText? operator = none)
include hknown hkeyword

theorem exists_operations (hg : g.Sound) (h : Raised g levels height p)
    (hoperand : p.isOperand = true) {n : Nat} (hn : n ≤ levels) :
    ∃ q : Phrase, q.Raised g levels (height + n) ∧ q.isConditional = false := by
  obtain ⟨o, ho, hspells⟩ := exists_operatorName hg hknown hkeyword
  obtain ⟨precedence, hprecedence⟩ := Option.isSome_iff_exists.mp hknown
  rw [← ho] at hprecedence
  obtain ⟨x, hx⟩ := (raised_name g levels).spells
  suffices hfolds : ∃ q : Phrase, q.Raised g levels (height + n) ∧ q.Binds g precedence ∧
      q.folds = n by
    obtain ⟨q, hq, hbinds, -⟩ := hfolds
    exact ⟨q, hq, isConditional_of_binds hbinds⟩
  induction n with
  | zero => exact ⟨p, h, binds_of_isOperand hoperand, folds_of_isOperand hoperand⟩
  | succ n ih =>
    obtain ⟨q, hq, hbinds, hqfolds⟩ := ih (Nat.le_of_succ_le hn)
    obtain ⟨s, hs⟩ := hq.spells
    have hpos := hq.height_pos
    refine ⟨.binary o q (.leaf (.identifier "x")), ⟨?_, ?_, ?_, ⟨_, hspells _ _ _ _ hs hx⟩⟩,
      ⟨precedence, hprecedence, Nat.le_refl _⟩, ?_⟩
    · exact .binary hprecedence hq.settled (.leaf _) hbinds trivial
    · exact Nat.max_le.mpr ⟨hq.depth, by simp only [Phrase.depth]; omega⟩
    · simp only [expr, Leaf.expr, Expr.height, hq.height]
      omega
    · simp only [Phrase.folds, hqfolds]

theorem exists_raised (hg : g.Sound) (levels : Nat) :
    ∃ p : Phrase, p.Raised g levels (Expr.peak (levels + 1)) := by
  induction levels with
  | zero => exact ⟨_, raised_name g 0⟩
  | succ levels ih =>
    obtain ⟨p, hp⟩ := ih
    obtain ⟨path, hpath, hisPath, -⟩ := exists_members hg (hp.array hg) rfl rfl (Nat.le_refl _)
    obtain ⟨test, htest, hconditional⟩ := exists_operations hknown hkeyword hg hpath
      (isOperand_of_isPath hisPath) (Nat.le_refl _)
    have hpeak : Expr.peak (levels + 1) + 1 + (levels + 1) + (levels + 1) + 1 =
        Expr.peak (levels + 1 + 1) := by
      rw [Expr.peak_succ (levels + 1), Expr.peak]
      omega
    exact ⟨_, hpeak ▸ htest.conditional hg hconditional⟩

end Operator
end Phrase

/-- What is read within a limit is no higher than the peak of the limit, so a walk over it and an
evaluation of it go no further down than that; and under the standard operators every limit has a text
that reaches its peak. -/
theorem Expr.height_of_parse_peaks :
    (∀ (g : Grammar) (limit : Nat) (text : String) (e : Expr),
      Expr.parse g limit text = .ok e → e.height ≤ limit * limit + limit - 1) ∧
    (∀ (e : Expr) (levels : Nat), (e.walk levels).outcome = .ok () ↔ e.height ≤ levels) ∧
    (∀ (r : Registry) (context : Context) (e : Expr) (levels levels' : Nat), e.height ≤ levels →
      levels ≤ levels' → e.evaluate r context levels = e.evaluate r context levels') ∧
    ∀ limit, 1 ≤ limit → ∃ text e, Expr.parse Registry.standard.grammar limit text = .ok e ∧
      e.height = limit * limit + limit - 1 := by
  refine ⟨fun g limit text e h => height_le_peak h, fun e levels => walk_ok_iff, ?_, ?_⟩
  · intro r context e levels levels' hheight hle
    exact (reaches_evaluateWithin r context levels levels' hle e).eq_of_enough hheight
  · intro limit hlimit
    obtain ⟨levels, rfl⟩ : ∃ n, limit = n + 1 := ⟨limit - 1, by omega⟩
    have hg := Registry.Built.standard.sound
    have hplus : (Registry.standard.grammar.precedence? "+").isSome = true := by decide
    obtain ⟨p, hp⟩ := Phrase.exists_raised hplus (by decide) hg levels
    obtain ⟨s, hs⟩ := hp.spells
    have hlexes : LexesTo Registry.standard.grammar.symbols (String.ofList s) p.tokens := by
      rw [lexesTo_iff_scans (empty_notMem_symbols hg)]
      simpa using hs [] trivial
    have hparse := (Phrase.parse_eq_ok_iff hlexes).mpr
      ⟨hp.settled, rfl, Nat.succ_le_succ hp.depth⟩
    exact ⟨_, _, parse_eq_ok_iff.mpr ⟨p, hparse, rfl⟩, hp.height⟩

/-- Two levels are enough for five nodes below each other. -/
theorem Expr.height_of_parse_two : ∃ e,
    Expr.parse Registry.standard.grammar 2 "[x].x + x ? x : x" = .ok e ∧ e.height = 5 ∧
      e.height ≤ 2 * 2 + 2 - 1 ∧
      e.evaluate .standard [] 5 = e.evaluate .standard [] 128 ∧
      ∃ text e', Expr.parse Registry.standard.grammar 2 text = .ok e' ∧
        e'.height = 2 * 2 + 2 - 1 := by
  have hlexes : LexesTo Registry.standard.grammar.symbols "[x].x + x ? x : x"
      [.mark .leftBracket, .identifier "x", .mark .rightBracket, .mark .dot, .identifier "x",
        .operator "+", .identifier "x", .mark .question, .identifier "x", .mark .colon,
        .identifier "x"] := by
    rw [LexesTo, Registry.symbols_standard]
    rfl
  let x : Phrase := .leaf (.identifier "x")
  have hx : x.Settled Registry.standard.grammar := .leaf _
  have hpath : (Phrase.dot (.array [x]) (.word "x")).Settled Registry.standard.grammar :=
    .dot _ (.array (by simpa using hx)) rfl
  have hplus : Registry.standard.grammar.precedence? "+" = some 30 := by decide
  have hsettled : (Phrase.conditional (.binary (.symbol "+") (.dot (.array [x]) (.word "x")) x) x
      x).Settled Registry.standard.grammar :=
    .conditional (.binary hplus hpath hx trivial trivial) rfl hx hx
  have hphrase : Phrase.parse Registry.standard.grammar 2 "[x].x + x ? x : x" = .ok _ :=
    (Phrase.parse_eq_ok_iff hlexes).mpr ⟨hsettled, rfl, by decide⟩
  have hparse := parse_eq_ok_iff.mpr ⟨_, hphrase, rfl⟩
  exact ⟨_, hparse, rfl, height_of_parse_peaks.1 _ _ _ _ hparse,
    height_of_parse_peaks.2.2.1 _ _ _ _ _ (by decide) (by decide),
    height_of_parse_peaks.2.2.2 2 (by decide)⟩

end PipeExpr
