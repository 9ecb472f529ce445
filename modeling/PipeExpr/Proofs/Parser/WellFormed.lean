import PipeExpr.Proofs.Expr.Origins
import PipeExpr.Proofs.Lexer.Sources
import PipeExpr.Proofs.Parser.Names
import PipeExpr.Proofs.Registry.Represented

/-!
The trees that the parser gives. Names are identifiers, operators are known, literals are scalar, and each
number is written in the text. With the registry of the grammar no operator in such a tree is unknown.
-/
namespace PipeExpr
open Lexer
variable {g : Grammar} {limit : Nat} {text : String} {e : Expr}

def IsIdentifier (name : String) : Prop :=
  Text.isName name.toList = true ∧ ∀ k : Keyword, name ≠ k.text

/-- Well formed by itself, whatever its parts are. -/
def Expr.WellFormed (g : Grammar) (text : String) : Expr → Prop
  | .identifier name => IsIdentifier name
  | .transform name _ _ => IsIdentifier name
  | .binary operator _ _ =>
    (g.precedence? operator).isSome = true ∧ ∀ k : Keyword, operator ≠ k.text
  | .literal v => v.isScalar = true ∧ ∀ x, v = .number x →
      ∃ lexeme ∈ lexemes g.symbols text, lexeme.content = .ok (.number x) ∧
        Numeral (lexeme.source text) x
  | _ => True

theorem ne_text_of_ofText? {name : String} (h : Keyword.ofText? name = none) (k : Keyword) :
    name ≠ k.text := by
  rintro rfl
  cases k <;> cases h

theorem LexesTo.isIdentifier (hsymbols : "" ∉ g.symbols) {ts : List Token}
    (h : LexesTo g.symbols text ts) {name : String} (hname : .identifier name ∈ ts) :
    IsIdentifier name :=
  ⟨h.isName_of_identifier hsymbols hname,
    ne_text_of_ofText? (h.identifier_not_keyword hsymbols hname)⟩

namespace Expr

theorem SpelledBy.wellFormed (hg : g.Sound) {ts : List Token} (hlexes : LexesTo g.symbols text ts)
    {node : Expr} (h : node.SpelledBy g ts) : node.WellFormed g text := by
  have hsymbols := empty_notMem_symbols hg
  cases node with
  | identifier name => exact hlexes.isIdentifier hsymbols h.namedIn
  | transform name subject arguments => exact hlexes.isIdentifier hsymbols h.namedIn
  | binary operator left right =>
    obtain ⟨hknown, o, rfl, ho⟩ := h.namedIn
    exact ⟨hknown, ne_text_of_ofText? (hlexes.operator_not_keyword hg ho)⟩
  | literal v =>
    obtain ⟨hscalar, hnumber⟩ := h.literal
    exact ⟨hscalar, fun x hx => hlexes.exists_numeral hsymbols (hnumber x hx)⟩
  | _ => trivial

theorem wellFormed_of_parse (hg : g.Sound) (h : Expr.parse g limit text = .ok e) :
    ∀ node ∈ e.nodes, node.WellFormed g text := by
  obtain ⟨p, hp, rfl⟩ := parse_eq_ok_iff.mp h
  have hlexes := Phrase.lexesTo_of_parse (empty_notMem_symbols hg) hp
  obtain ⟨hsettled, -, -⟩ := (Phrase.parse_eq_ok_iff hlexes).mp hp
  exact fun node hnode => (hsettled.fits.spelledBy node hnode).wellFormed hg hlexes

/-- Every node of a tree that is parsed is well formed. Evaluated with the registry of its grammar the
tree gives no unknown operator, unless a registered function answers the last call so. -/
theorem parse_wellFormed (b : Registry.Base) (calls : List Registry.Registration)
    (h : Expr.parse (b.after calls).grammar limit text = .ok e) :
    (∀ node ∈ e.nodes, node.WellFormed (b.after calls).grammar text) ∧
      ∀ context limit' token,
        (e.evaluate (b.after calls) context limit').outcome = .error (.unknownOperator token) →
        ∃ before call, (e.evaluate (b.after calls) context limit').events = before ++ [call] ∧
          (b.after calls).answer? call = some (.error (.unknownOperator token)) := by
  have hbuilt := Registry.built_after b calls
  refine ⟨wellFormed_of_parse hbuilt.sound h, fun context limit' token herror => ?_⟩
  cases unknownOperator_source herror with
  | inr hrefused => exact hrefused
  | inl hraised =>
    obtain ⟨left, right, hnode, hnone⟩ := hraised
    have hknown := (wellFormed_of_parse hbuilt.sound h _ hnode).1
    rw [hbuilt.mirrored.precedence?_eq, Option.isSome_map, hnone] at hknown
    cases hknown

/-- A name, a transform, the word `in` and a number. The transform is from outside and answers that it
knows no operator `near`, so the evaluation ends with that answer. -/
theorem parse_wellFormed_refer :
    let refer : Transform := .silent fun _ _ => .error (.unknownOperator "near")
    let r := Registry.Base.standard.after [.transform "refer" refer]
    let number : Value := .number (Decimal.ofDigits ['1'] ['5'])
    let tree : Expr := .binary "in" (.transform "refer" (.identifier "x") []) (.literal number)
    Expr.parse r.grammar 16 "x|refer in 1.5" = .ok tree ∧
      (∀ node ∈ tree.nodes, node.WellFormed r.grammar "x|refer in 1.5") ∧
      ∃ before call, (tree.evaluate r [("x", .null)] 16).events = before ++ [call] ∧
        r.answer? call = some (.error (.unknownOperator "near")) := by
  intro refer r number tree
  have hlexes : LexesTo r.grammar.symbols "x|refer in 1.5" [.identifier "x", .mark .pipe,
      .identifier "refer", .identifier "in", .number (Decimal.ofDigits ['1'] ['5'])] := by
    have hsymbols : r.grammar.symbols = _ := Registry.symbols_standard
    rw [lexesTo_iff_scans_toList (empty_notMem_symbols (Registry.built_after _ _).sound), hsymbols]
    exact .token rfl (by simp) (.token rfl (by simp) (.token rfl (by simp) (.token rfl (by simp)
      (.token rfl (by simp) (.done rfl)))))
  have hknown : r.grammar.precedence? "in" = some 20 := rfl
  have hparse : Expr.parse r.grammar 16 "x|refer in 1.5" = .ok tree :=
    Expr.parse_settled (p := .binary (.word "in") (.pipe (.leaf (.identifier "x")) "refer")
      (.leaf (.number _))) hlexes (by decide)
      (.binary hknown (.pipe "refer" (.leaf _) rfl) (.leaf _) trivial trivial) rfl
  obtain ⟨hnodes, hcalls⟩ := parse_wellFormed .standard [.transform "refer" refer] hparse
  exact ⟨hparse, hnodes, hcalls [("x", .null)] 16 "near" rfl⟩

end Expr
end PipeExpr
