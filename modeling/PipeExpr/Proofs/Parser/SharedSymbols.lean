import PipeExpr.Proofs.Lexer.Context
import PipeExpr.Proofs.Parser.Language

/-!
What grammars with the same symbols make of one text. Its tokens are the same under both, and on a
single level no operator is read, so neither is what comes of them different.
-/
namespace PipeExpr

namespace Phrase
variable {g g' : Grammar} {p : Phrase}

theorem Settled.of_depth_eq_zero (h : p.Settled g) (hd : p.depth = 0) : p.Settled g' := by
  cases h with
  | leaf l => exact .leaf l
  | array _ =>
    refine .array fun p hp => ?_
    have hp := itemsDepth_le.mp (Nat.le_of_eq hd) p hp
    omega
  | object _ =>
    refine .object fun f hf => ?_
    have hf := fieldsDepth_le.mp (Nat.le_of_eq hd) f hf
    omega
  | group | dot | index | pipe | call | signed | binary | conditional =>
    simp only [depth] at hd
    omega

end Phrase

namespace Expr
open Lexer
variable {g g' : Grammar} {limit : Nat} {text : String}

/-- On a single level grammars with the same symbols read the same. -/
theorem parse_of_symbols_eq (hg : g.Sound) (hsymbols : g.symbols = g'.symbols) (hlimit : limit ≤ 1)
    {e : Expr} (h : Expr.parse g limit text = .ok e) : Expr.parse g' limit text = .ok e := by
  obtain ⟨p, hp, rfl⟩ := parse_eq_ok_iff.mp h
  have hlexes := Phrase.lexesTo_of_parse (empty_notMem_symbols hg) hp
  obtain ⟨hsettled, -, hdepth⟩ := (Phrase.parse_eq_ok_iff hlexes).mp hp
  rw [hsymbols] at hlexes
  have hsettled' : p.Settled g' := hsettled.of_depth_eq_zero (by omega)
  exact parse_eq_ok_iff.mpr ⟨p, (Phrase.parse_eq_ok_iff hlexes).mpr ⟨hsettled', rfl, hdepth⟩, rfl⟩

end Expr
end PipeExpr
