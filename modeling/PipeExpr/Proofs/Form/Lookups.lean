import PipeExpr.Proofs.Expr.Subjects
import PipeExpr.Proofs.Session.Validation

/-!
Lookups that lead to an answer. A valid expression looks up nothing but the slugs that are written in
it, so the document can be asked for all of them before the expression is evaluated.
-/
namespace PipeExpr

theorem Registry.transform?_answer (d : Document) :
    (form d).transform? "answer" = some ⟨d.answerTransform, some .stringLiteral⟩ := by
  rw [form, transform?_insertOperator, transform?_insertTransform, if_neg (by decide),
    transform?_insertTransform, if_pos rfl]

namespace Document

theorem answer_string (d : Document) (slug : String) (arguments : List Value) :
    d.answerTransform.apply (.string slug) arguments =
      (d.resolve slug).map fun v => if v.isNull then arguments.headD v else v := by
  change (d.resolve slug >>= _) = _
  cases d.resolve slug with
  | error e => rfl
  | ok v =>
    cases arguments with
    | nil => cases v <;> rfl
    | cons default rest => cases v <;> rfl

section Resolves
variable {d : Document} {limit : Nat} {e : Expr} (hwalk : (e.walk limit).outcome = .ok ())
  (hfindings : Visit.findings (.form d) .all (e.walk limit).events = [])
  (hresolves : ∀ slug, .string slug ∈ Visit.subjects ["answer"] (e.walk limit).events →
    ∃ v, d.resolve slug = .ok v)
include hwalk hfindings hresolves

/-- If the document has an answer for all that a valid expression looks up, then none of its calls
asks for another one, whatever the branch that it stands in. -/
theorem not_misses_of_resolves (context : Context) (limit' : Nat) :
    ∀ call ∈ (e.evaluate (.form d) context limit').events, ∀ error, ¬d.Misses error call := by
  intro call hcall error hmisses
  cases call with
  | operator => exact hmisses
  | transform name subjectAt argumentsAt subject arguments =>
    obtain ⟨rfl, hrefused⟩ := hmisses
    obtain ⟨registered, hregistered, hrule⟩ := Expr.subject_of_call hwalk hfindings hcall
    rw [Registry.transform?_answer] at hregistered
    obtain rfl := Option.some.inj hregistered
    obtain ⟨⟨slug, rfl⟩, hlisted⟩ := hrule .stringLiteral rfl
    obtain ⟨v, hv⟩ := hresolves slug (hlisted ["answer"] rfl)
    rw [answer_string, hv] at hrefused
    cases hrefused

theorem not_isDomain_of_resolves (context : Context) (limit' : Nat) :
    FailsWith (·.isDomain = false) (e.evaluate (.form d) context limit').outcome := by
  intro error herror
  have hordered := Expr.orderly_evaluateWithin (.form d) context limit' limit' e
  cases hordered.answered.error_cases herror with
  | inl hown => exact Error.not_isDomain_of_isOwn hown
  | inr hanswered =>
    obtain ⟨call, hcall, hanswer⟩ := hanswered
    cases Registry.failsWith_form d call error hanswer with
    | inl hvalues => exact Error.not_isDomain_of_isOfValues hvalues
    | inr hmisses =>
      have hnone := not_misses_of_resolves hwalk hfindings hresolves context limit' call hcall error
      exact absurd hmisses hnone

end Resolves

/-- Where a validation finds nothing, the slugs that an expression looks up are told. If each of them
leads to an answer, then no evaluation fails for a question that is not found or a path that leads
nowhere. -/
theorem evaluate_finds_answers {d : Document} {settings : Settings} {text : String} {s : Session}
    (hcache : settings.cache = false)
    (hvalid : ((d.engine settings).validate text).outcome s = .ok []) :
    ∃ slugs, (∀ s, ((d.engine settings).answerSlugs text).outcome s = .ok slugs) ∧
      ((∀ slug ∈ slugs, ∃ v, d.resolve slug = .ok v) → ∀ extra s e,
        (d.evaluate settings text extra).outcome s = .error e → e.isDomain = false) := by
  obtain ⟨e, hreading, hwalk, hfindings⟩ := Engine.clean_of_validate hcache hvalid
  refine ⟨_, fun s => Engine.outcome_analyze_of_walk hcache hreading hwalk _, ?_⟩
  intro hresolves extra s error herror
  have hslugs : ∀ slug, .string slug ∈ Visit.subjects ["answer"] (e.walk settings.maxDepth).events →
      ∃ v, d.resolve slug = .ok v :=
    fun slug hslug => hresolves slug (List.mem_filterMap.mpr ⟨_, hslug, rfl⟩)
  have hevaluation := Engine.evaluate_of_reading (s := s) hcache hreading (d.context.insertAll extra)
  exact not_isDomain_of_resolves hwalk hfindings hslugs _ _ error (hevaluation.1.symm.trans herror)

/-- A row of a table looks up an answer of the document around it, and a string has no negation. -/
theorem evaluate_negated_answer :
    let d := { ofForm "row" with parent := some ((ofForm "main").answer "q" (.string "a")) }
    ∃ e, (d.evaluate { cache := false } "-'parent.q'|answer").outcome .start = .error e ∧
      e.isDomain = false := by
  intro d
  have hresolve : d.resolve "parent.q" = .ok (.string "a") := rfl
  -- Nothing else is needed of the document, and unfolding it would be slow.
  clear_value d
  have hlexes : LexesTo (Registry.form d).grammar.symbols "-'parent.q'|answer"
      [.operator "-", .string "parent.q", .mark .pipe, .identifier "answer"] := by
    rw [Registry.symbols_form, Registry.symbols_standard]
    decide +kernel
  have hreading : (d.engine { cache := false }).reading "-'parent.q'|answer" =
      .ok (.negate (.transform "answer" (.literal (.string "parent.q")) [])) :=
    Expr.parse_settled (p := .signed .minus (.pipe (.leaf (.string "parent.q")) "answer")) hlexes
      (show 9 ≤ 128 by decide) (.signed .minus (.pipe _ (.leaf _) rfl) rfl) rfl
  have hanswer : Allowance.all.transform? (.form d) "answer" =
      some ⟨d.answerTransform, some .stringLiteral⟩ := Registry.transform?_answer d
  have hfindings : Visit.findings (.form d) .all
      [.transform "answer" (.literal (.string "parent.q")) []] = [] := by
    rw [Visit.findings, List.filterMap_cons, Visit.finding?, hanswer]
    rfl
  have hvalid : ((d.engine { cache := false }).validate "-'parent.q'|answer").outcome .start =
      .ok [] := Engine.validate_of_walk rfl hreading rfl hfindings
  obtain ⟨slugs, hslugs, hanswers⟩ := evaluate_finds_answers rfl hvalid
  have hlisted : slugs = ["parent.q"] :=
    Except.ok.inj ((hslugs .start).symm.trans (Engine.outcome_analyze_of_walk rfl hreading rfl _))
  have hresolves : ∀ slug ∈ slugs, ∃ v, d.resolve slug = .ok v := by
    rw [hlisted]
    exact List.forall_mem_singleton.mpr ⟨_, hresolve⟩
  have hanswered : d.answerTransform.apply (.string "parent.q") [] = .ok (.string "a") := by
    rw [answer_string, hresolve]
    rfl
  have hcall : (Expr.evaluateWithin (.form d) (d.context.insertAll []) 128 127
      (.transform "answer" (.literal (.string "parent.q")) [])).outcome = .ok (.string "a") := by
    rw [Expr.evaluateWithin, Registry.transform?_answer]
    exact hanswered
  have hnegated : (d.evaluate { cache := false } "-'parent.q'|answer").outcome .start =
      .error (.mismatch (.negation .string)) := by
    refine (Engine.evaluate_of_reading rfl hreading (d.context.insertAll [])).1.trans ?_
    exact congrArg Traced.outcome (Traced.bind_of_ok hcall _)
  exact ⟨_, hnegated, hanswers hresolves [] .start _ hnegated⟩

end Document
end PipeExpr
