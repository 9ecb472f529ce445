import PipeExpr.Proofs.Lexer.Places
import PipeExpr.Proofs.Parser.Language
import PipeExpr.Proofs.Phrase.Names
import PipeExpr.Proofs.Render.Writing

/-!
Names that are read in their places. What a text is read as is named by its tokens, so an operator in
it stands in the text, and no keyword names a thing. All other names are read: an operator between two
names, and a transform behind a pipe.
-/
namespace PipeExpr.Expr
open Lexer
variable {g : Grammar} {limit : Nat} {text : String} {e : Expr}

theorem namedIn_of_parse (hg : g.Sound) (h : Expr.parse g limit text = .ok e) :
    ∃ ts, LexesTo g.symbols text ts ∧ ∀ node ∈ e.nodes, node.NamedIn g ts := by
  obtain ⟨p, hp, rfl⟩ := parse_eq_ok_iff.mp h
  have hlexes := Phrase.lexesTo_of_parse (empty_notMem_symbols hg) hp
  obtain ⟨hsettled, -, -⟩ := (Phrase.parse_eq_ok_iff hlexes).mp hp
  exact ⟨p.tokens, hlexes, hsettled.fits.namedIn⟩

theorem operator_infix_of_parse (hg : g.Sound) (h : Expr.parse g limit text = .ok e)
    {operator : String} {left right : Expr} (hnode : .binary operator left right ∈ e.nodes) :
    operator.toList <:+: text.toList := by
  obtain ⟨ts, hlexes, hnamed⟩ := namedIn_of_parse hg h
  obtain ⟨-, o, rfl, ho⟩ := hnamed _ hnode
  exact hlexes.operator_infix (empty_notMem_symbols hg) ho

theorem operator_not_keyword_of_parse (hg : g.Sound) (h : Expr.parse g limit text = .ok e)
    {operator : String} {left right : Expr} (hnode : .binary operator left right ∈ e.nodes) :
    Keyword.ofText? operator = none := by
  obtain ⟨ts, hlexes, hnamed⟩ := namedIn_of_parse hg h
  obtain ⟨-, o, rfl, ho⟩ := hnamed _ hnode
  exact hlexes.operator_not_keyword hg ho

theorem transform_not_keyword_of_parse (hg : g.Sound) (h : Expr.parse g limit text = .ok e)
    {name : String} {subject : Expr} {arguments : List Expr}
    (hnode : .transform name subject arguments ∈ e.nodes) : Keyword.ofText? name = none := by
  obtain ⟨ts, hlexes, hnamed⟩ := namedIn_of_parse hg h
  exact hlexes.identifier_not_keyword (empty_notMem_symbols hg) (hnamed _ hnode)

theorem knows_of_parse (hg : g.Sound) {operator : String} {left right : Expr}
    (h : Expr.parse g limit text = .ok (.binary operator left right)) :
    (g.precedence? operator).isSome = true := by
  obtain ⟨ts, -, hnamed⟩ := namedIn_of_parse hg h
  exact (hnamed _ (Expr.self_mem_nodes _)).1

theorem spells_x (symbols : List String) : Spells symbols ['x'] [.identifier "x"] :=
  spells_name symbols (by decide : Text.isName "x".toList = true)

theorem spells_y (symbols : List String) : Spells symbols ['y'] [.identifier "y"] :=
  spells_name symbols (by decide : Text.isName "y".toList = true)

theorem parse_betweenNames {operator : String} (hg : g.Sound)
    (hknown : (g.precedence? operator).isSome = true)
    (hkeyword : Keyword.ofText? operator = none) (hlimit : 2 ≤ limit) :
    Expr.parse g limit ("x " ++ operator ++ " y") =
      .ok (.binary operator (.identifier "x") (.identifier "y")) := by
  obtain ⟨n, hn⟩ := Option.isSome_iff_exists.mp hknown
  obtain ⟨o, rfl, hspells⟩ := exists_operatorName hg hknown hkeyword
  have hscans := hspells _ _ _ _ (spells_x g.symbols) (spells_y g.symbols) [] trivial
  have hlexes : LexesTo g.symbols ("x " ++ o.text ++ " y")
      [.identifier "x", o.token, .identifier "y"] :=
    (lexesTo_iff_scans_toList (empty_notMem_symbols hg)).mpr (by simpa using hscans)
  refine parse_eq_ok_iff.mpr
    ⟨.binary o (.leaf (.identifier "x")) (.leaf (.identifier "y")), ?_, rfl⟩
  exact (Phrase.parse_eq_ok_iff hlexes).mpr
    ⟨.binary hn (.leaf _) (.leaf _) trivial trivial, rfl, hlimit⟩

theorem parse_piped {name : String} (hg : g.Sound) (hname : Text.isName name.toList = true)
    (hkeyword : Keyword.ofText? name = none) (hlimit : 2 ≤ limit) :
    Expr.parse g limit ("x|" ++ name) = .ok (.transform name (.identifier "x") []) := by
  have hplain : Plain name.toList := by simpa using (begins_name hname).plain []
  have hpipe := scans_operatorMark (m := .pipe) hg (.inr rfl) hplain
    (by simpa using spells_identifier g.symbols hname hkeyword [] trivial)
  have hscans := (spells_x g.symbols _ (separates_cons rfl (by decide) _)).append hpipe
  have hlexes : LexesTo g.symbols ("x|" ++ name)
      [.identifier "x", .mark .pipe, .identifier name] :=
    (lexesTo_iff_scans_toList (empty_notMem_symbols hg)).mpr (by simpa [Mark.char] using hscans)
  refine parse_eq_ok_iff.mpr ⟨.pipe (.leaf (.identifier "x")) name, ?_, rfl⟩
  exact (Phrase.parse_eq_ok_iff hlexes).mpr ⟨.pipe name (.leaf _) rfl, rfl, hlimit⟩

end PipeExpr.Expr
