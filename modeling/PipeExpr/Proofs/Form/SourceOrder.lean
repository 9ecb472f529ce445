import PipeExpr.Form.Engine
import PipeExpr.Proofs.Expr.Preorder
import PipeExpr.Proofs.Parser.Names
import PipeExpr.Proofs.Phrase.Strings
import PipeExpr.Proofs.Registry.Represented
import PipeExpr.Proofs.Session.Validation

/-!
Slugs in the order of the text. What an extraction lists are strings of the text, from left to right and
each one as often as it is looked up.
-/
namespace PipeExpr

def stringsOf (symbols : List String) (text : String) : List String :=
  (lexemes symbols text).filterMap fun lexeme => lexeme.content.toOption.bind Token.content?

theorem LexesTo.stringsOf_eq {symbols : List String} {text : String} {ts : List Token}
    (h : LexesTo symbols text ts) : stringsOf symbols text = Token.contents ts := by
  have hcontents : stringsOf symbols text = ((lexemes symbols text).map Lexeme.content).filterMap
      fun content => content.toOption.bind Token.content? := by
    rw [List.filterMap_map]
    rfl
  rw [hcontents, h, List.filterMap_append, List.filterMap_map]
  exact List.append_nil _

theorem Expr.subjects_in_order {g : Grammar} (hg : g.Sound) {limit : Nat} {text : String} {e : Expr}
    (h : Expr.parse g limit text = .ok e) (names : List String) :
    (e.stringSubjects names).Sublist (stringsOf g.symbols text) := by
  obtain ⟨p, hp, rfl⟩ := parse_eq_ok_iff.mp h
  have hlexes := Phrase.lexesTo_of_parse (Lexer.empty_notMem_symbols hg) hp
  obtain ⟨hsettled, -, -⟩ := (Phrase.parse_eq_ok_iff hlexes).mp hp
  rw [hlexes.stringsOf_eq]
  exact hsettled.fits.subjects_in_order names

theorem Engine.answerSlugs_eq_ok {engine : Engine} {text : String} {s : Session} {slugs : List String}
    (hcache : engine.settings.cache = false) (h : (engine.answerSlugs text).outcome s = .ok slugs) :
    ∃ e, engine.reading text = .ok e ∧ e.stringSubjects ["answer"] = slugs := by
  obtain ⟨e, hreading, hwalk, hslugs⟩ := analyze_eq_ok hcache h
  refine ⟨e, hreading, ?_⟩
  rw [Expr.events_of_walk hwalk, Visit.subjects, List.filterMap_filterMap, List.filterMap_filterMap]
    at hslugs
  exact hslugs

/-- The slugs that an expression about a document looks up literally are strings of the expression, in the
order in which they are written, with duplicates. -/
theorem Document.slugs_in_order (d : Document) {settings : Settings} {text : String} {s : Session}
    {slugs : List String} (hcache : settings.cache = false)
    (h : ((d.engine settings).answerSlugs text).outcome s = .ok slugs) :
    slugs.Sublist (stringsOf (Registry.form d).grammar.symbols text) := by
  obtain ⟨e, hreading, rfl⟩ := Engine.answerSlugs_eq_ok hcache h
  exact Expr.subjects_in_order (Registry.built_form d).sound hreading ["answer"]

/-- A slug that is looked up twice, one inside the arguments of another, and strings that are no slugs. -/
theorem Document.slugs_in_order_nested :
    let text := "'b'|answer('x'|answer)|mapby('c') == ('a')|answer ? 'b'|answer : 'z'"
    ((blank.engine { cache := false }).answerSlugs text).outcome .start = .ok ["b", "x", "a", "b"] ∧
      stringsOf (Registry.form blank).grammar.symbols text = ["b", "x", "c", "a", "b", "z"] ∧
      ["b", "x", "a", "b"].Sublist (stringsOf (Registry.form blank).grammar.symbols text) := by
  intro text
  let nested : Phrase := .call (.call (.leaf (.string "b")) "answer"
    [.pipe (.leaf (.string "x")) "answer"]) "mapby" [.leaf (.string "c")]
  let grouped : Phrase := .pipe (.group (.leaf (.string "a"))) "answer"
  let p : Phrase := .conditional (.binary (.symbol "==") nested grouped)
    (.pipe (.leaf (.string "b")) "answer") (.leaf (.string "z"))
  have hlexes : LexesTo (Registry.form blank).grammar.symbols text p.tokens := by
    rw [Registry.symbols_form, Registry.symbols_standard]
    decide +kernel
  have hequal : (Registry.form blank).grammar.precedence? "==" = some 20 := rfl
  have hnested : nested.Settled (Registry.form blank).grammar :=
    .call _ (.call _ (.leaf _) rfl (List.forall_mem_singleton.mpr (.pipe _ (.leaf _) rfl))) rfl
      (List.forall_mem_singleton.mpr (.leaf _))
  have hgrouped : grouped.Settled (Registry.form blank).grammar := .pipe _ (.group (.leaf _)) rfl
  have hp : p.Settled (Registry.form blank).grammar :=
    .conditional (.binary hequal hnested hgrouped trivial trivial) rfl (.pipe _ (.leaf _) rfl) (.leaf _)
  have hreading : (blank.engine { cache := false }).reading text = .ok p.expr :=
    Expr.parse_settled hlexes (show 2 * p.tokens.length + 1 ≤ 128 by decide) hp rfl
  have hslugs : ((blank.engine { cache := false }).answerSlugs text).outcome .start =
      .ok ["b", "x", "a", "b"] := Engine.outcome_analyze_of_walk rfl hreading rfl _
  exact ⟨hslugs, hlexes.stringsOf_eq, slugs_in_order blank rfl hslugs⟩

end PipeExpr
