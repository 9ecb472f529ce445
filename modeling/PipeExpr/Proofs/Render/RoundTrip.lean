import PipeExpr.Proofs.Parser.Language
import PipeExpr.Proofs.Registry.Built
import PipeExpr.Proofs.Render.Writing

/-!
The text of an expression is parsed as that expression.
-/
namespace PipeExpr
open Lexer
variable {g : Grammar}

theorem Expr.Renderable.exists_writes (hg : g.Sound) {e : Expr} (h : e.Renderable g) :
    ∃ p, Writes g e p := by
  have hscans : ∀ {s ts}, LexesTo g.symbols (String.ofList s) ts → Scans g.symbols s ts [] :=
    (lexesTo_iff_scans (empty_notMem_symbols hg)).mp
  induction h with
  | literal l hl hlexes => exact ⟨_, writes_literal l hl (hscans hlexes)⟩
  | identifier hname => exact ⟨_, writes_identifier hname⟩
  | @member target property _ _ iht ihp =>
    obtain ⟨t, ht⟩ := iht
    obtain ⟨k, hk⟩ := ihp
    obtain ⟨q, hq⟩ := ht.operand hg
    cases hdotted : Expr.dottedName? property with
    | none => exact ⟨_, writes_indexed hg hq hk hdotted⟩
    | some s =>
      obtain ⟨name, rfl, rfl, hname⟩ := dottedName?_eq_some hdotted
      exact writes_dotted hg hq hname
  | not _ ih =>
    obtain ⟨p, hp⟩ := ih
    obtain ⟨q, hq⟩ := hp.operand hg
    exact ⟨_, writes_not hg hq⟩
  | negate _ ih =>
    obtain ⟨p, hp⟩ := ih
    obtain ⟨q, hq⟩ := hp.operand hg
    exact ⟨_, writes_negate hg hq⟩
  | binary hknown hkeyword _ _ ihl ihr =>
    obtain ⟨l, hl⟩ := ihl
    obtain ⟨r, hr⟩ := ihr
    obtain ⟨q, hq⟩ := hl.operand hg
    obtain ⟨q', hq'⟩ := hr.operand hg
    exact writes_binary hg hknown hkeyword hq hq'
  | conditional _ _ _ iht ihc iha =>
    obtain ⟨t, ht⟩ := iht
    obtain ⟨c, hc⟩ := ihc
    obtain ⟨a, ha⟩ := iha
    obtain ⟨q, hq⟩ := ht.operand hg
    exact ⟨_, writes_conditional hg hq hc ha⟩
  | @transform name subject arguments hname _ _ ihs iha =>
    obtain ⟨s, hs⟩ := ihs
    obtain ⟨q, hq⟩ := hs.operand hg
    obtain ⟨ps, hps⟩ := writes_items hg iha
    cases arguments with
    | nil => exact ⟨_, writes_pipe hg hname hq⟩
    | cons e es => exact ⟨_, writes_call hg hname hq hps (by simp)⟩
  | array _ ih =>
    obtain ⟨ps, hps⟩ := writes_items hg ih
    exact ⟨_, writes_array hg hps⟩
  | object hkeys _ ih =>
    obtain ⟨fields, hfields⟩ := writes_fields hg (fun entry he => hscans (hkeys entry he)) ih
    exact ⟨_, writes_object hg hfields⟩

/-- Rendering loses nothing: with two levels for every node, the text of an expression is parsed as
the expression itself. -/
theorem Expr.parse_text {r : Registry} (hr : r.Built) {e : Expr} (he : e.Renderable r.grammar)
    {limit : Nat} (hlimit : 2 * e.size ≤ limit) : Expr.parse r.grammar limit e.text = .ok e := by
  have hg := hr.sound
  obtain ⟨p, hp⟩ := he.exists_writes hg
  have hscans : Scans r.grammar.symbols e.chars p.tokens [] := by
    simpa using hp.spells [] trivial
  have hlexes : LexesTo r.grammar.symbols e.text p.tokens :=
    (lexesTo_iff_scans (empty_notMem_symbols hg)).mpr hscans
  have hdepth := hp.depth
  have hparse : Phrase.parse r.grammar limit e.text = .ok p :=
    (Phrase.parse_eq_ok_iff hlexes).mpr ⟨hp.settled, rfl, by omega⟩
  exact Expr.parse_eq_ok_iff.mpr ⟨p, hparse, hp.expr⟩

theorem Expr.parse_text_conditional :
    Expr.parse Registry.standard.grammar 18 "(in in (!x)) ? true : y|f(\"a\")" =
      .ok (.conditional (.binary "in" (.identifier "in") (.not (.identifier "x")))
        (.literal (.boolean true)) (.transform "f" (.identifier "y") [.literal (.string "a")])) := by
  have htrue : LexesTo Registry.standard.grammar.symbols (Expr.literal (.boolean true)).text
      [.keyword .true] := by
    rw [LexesTo, Registry.symbols_standard]
    rfl
  have hstring : LexesTo Registry.standard.grammar.symbols (Expr.literal (.string "a")).text
      [.string "a"] := by
    rw [LexesTo, Registry.symbols_standard]
    rfl
  have htest : Renderable Registry.standard.grammar
      (.binary "in" (.identifier "in") (.not (.identifier "x"))) :=
    .binary (by decide) (by decide) (.identifier (by decide)) (.not (.identifier (by decide)))
  have hcall : Renderable Registry.standard.grammar
      (.transform "f" (.identifier "y") [.literal (.string "a")]) :=
    .transform (by decide) (.identifier (by decide))
      (by simpa using .literal (.string "a") rfl hstring)
  have hconditional : Renderable Registry.standard.grammar
      (.conditional (.binary "in" (.identifier "in") (.not (.identifier "x")))
        (.literal (.boolean true)) (.transform "f" (.identifier "y") [.literal (.string "a")])) :=
    .conditional htest (.literal (.keyword .true) rfl htrue) hcall
  have hparse := parse_text .standard hconditional (show _ ≤ 18 by decide)
  rw [← hparse]
  congr 1

end PipeExpr
