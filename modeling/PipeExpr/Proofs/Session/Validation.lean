import PipeExpr.Proofs.Expr.Foresight
import PipeExpr.Proofs.Parser.Language
import PipeExpr.Proofs.Session.Steps

/-!
What a validation without findings promises. The expression is read, is not too deep, and all that it
uses is registered; so under a context that binds its identifiers an evaluation fails only for what a
registered function answers, or for a value that has no negation or no members.
-/
namespace PipeExpr.Engine
variable {engine : Engine} {text : String} {s : Session}

theorem parse_uncached_ok (hcache : engine.settings.cache = false) {e : Expr}
    (h : engine.reading text = .ok e) :
    engine.parse text s = .ok ⟨s.trees, e⟩ { s with trees := s.trees + 1 } := by
  unfold parse
  rw [hcache]
  exact Step.parseFresh_ok h

theorem parse_uncached_error (hcache : engine.settings.cache = false) {e : Error}
    (h : engine.reading text = .error e) : engine.parse text s = .error e s := by
  unfold parse
  rw [hcache]
  exact Step.parseFresh_error h

theorem outcome_validate (allowed : Allowance) :
    (engine.validate text allowed).outcome s =
      match (engine.analyze text (Visit.findings engine.registry allowed)).outcome s with
      | .ok findings => .ok findings
      | .error e => .ok [.unreadable e] := by
  unfold validate Step.outcome
  cases hanalyze : engine.analyze text (Visit.findings engine.registry allowed) s with
  | ok findings s' =>
    rw [Step.bind_ok (Step.tryCatch_ok hanalyze _)]
    cases findings with
    | nil => rfl
    | cons finding rest => rfl
  | error e s' =>
    rw [Step.bind_ok (Step.tryCatch_error hanalyze _)]
    rfl

theorem outcome_analyze {α : Type} (hcache : engine.settings.cache = false) {e : Expr}
    (h : engine.reading text = .ok e) (analysis : List Visit → α) :
    (engine.analyze text analysis).outcome s =
      (e.walk engine.settings.maxDepth).outcome.map fun _ =>
        analysis (e.walk engine.settings.maxDepth).events := by
  unfold analyze Step.outcome
  rw [Step.bind_ok (parse_uncached_ok hcache h)]
  dsimp only
  cases (e.walk engine.settings.maxDepth).outcome with
  | ok u => rfl
  | error e => rfl

theorem outcome_analyze_of_walk {α : Type} (hcache : engine.settings.cache = false) {e : Expr}
    (h : engine.reading text = .ok e) (hwalk : (e.walk engine.settings.maxDepth).outcome = .ok ())
    (analysis : List Visit → α) : (engine.analyze text analysis).outcome s =
      .ok (analysis (e.walk engine.settings.maxDepth).events) := by
  rw [outcome_analyze hcache h, hwalk]
  rfl

theorem evaluate_of_reading (hcache : engine.settings.cache = false) {e : Expr}
    (h : engine.reading text = .ok e) (context : Context) :
    (engine.evaluate text context).outcome s =
        (e.evaluate engine.registry context engine.settings.maxDepth).outcome ∧
      ((engine.evaluate text context).after s).calls =
        s.calls ++ (e.evaluate engine.registry context engine.settings.maxDepth).events := by
  unfold evaluate Step.outcome Step.after
  rw [Step.bind_ok (parse_uncached_ok hcache h)]
  unfold evaluateTree Step.ofEvaluation
  cases (e.evaluate engine.registry context engine.settings.maxDepth).outcome with
  | ok v => exact ⟨rfl, rfl⟩
  | error e' => exact ⟨rfl, rfl⟩

/-- The context binds every identifier that a walk over the expression reports. -/
def Binds (engine : Engine) (context : Context) (text : String) : Prop :=
  ∀ e, engine.reading text = .ok e →
    ∀ name, Visit.identifier name ∈ (e.walk engine.settings.maxDepth).events →
      ∃ v, context.find? name = some v

theorem analyze_eq_ok {α : Type} (hcache : engine.settings.cache = false) {analysis : List Visit → α}
    {a : α} (h : (engine.analyze text analysis).outcome s = .ok a) :
    ∃ e, engine.reading text = .ok e ∧ (e.walk engine.settings.maxDepth).outcome = .ok () ∧
      analysis (e.walk engine.settings.maxDepth).events = a := by
  cases hreading : engine.reading text with
  | error e =>
    have hfails : (engine.analyze text analysis).outcome s = .error e :=
      Step.outcome_error (Step.bind_error (parse_uncached_error hcache hreading))
    rw [hfails] at h
    cases h
  | ok e =>
    refine ⟨e, rfl, ?_⟩
    rw [outcome_analyze hcache hreading] at h
    cases hwalk : (e.walk engine.settings.maxDepth).outcome with
    | error e' =>
      rw [hwalk] at h
      cases h
    | ok u =>
      rw [hwalk] at h
      exact ⟨rfl, Except.ok.inj h⟩

theorem clean_of_validate (hcache : engine.settings.cache = false)
    (h : (engine.validate text).outcome s = .ok []) : ∃ e, engine.reading text = .ok e ∧
      (e.walk engine.settings.maxDepth).outcome = .ok () ∧
      Visit.findings engine.registry .all (e.walk engine.settings.maxDepth).events = [] := by
  rw [outcome_validate] at h
  split at h
  · next findings hanalyze =>
    obtain rfl := Except.ok.inj h
    exact analyze_eq_ok hcache hanalyze
  · cases h

theorem validate_of_walk (hcache : engine.settings.cache = false) {e : Expr}
    (h : engine.reading text = .ok e) (hwalk : (e.walk engine.settings.maxDepth).outcome = .ok ())
    (hfindings : Visit.findings engine.registry .all (e.walk engine.settings.maxDepth).events = []) :
    (engine.validate text).outcome s = .ok [] := by
  rw [outcome_validate, outcome_analyze_of_walk hcache h hwalk, hfindings]

/-- Where a validation finds nothing, an evaluation ends with a value, or with an error that its last
call was answered with, or for want of a negation or of members. The functions of the library keep
to what is asked of them. -/
theorem evaluate_of_validate :
    (∀ (engine : Engine) (text : String) (context : Context) (s s' : Session),
      engine.registry.WellBehaved → engine.settings.cache = false →
      (engine.validate text).outcome s = .ok [] → engine.Binds context text →
      ∀ e, (engine.evaluate text context).outcome s' = .error e →
        e.isForeseeable = false ∧
        ∃ calls, ((engine.evaluate text context).after s').calls = s'.calls ++ calls ∧
          engine.registry.Explains calls e) ∧
    Registry.standard.WellBehaved ∧ (∀ d, (Registry.form d).WellBehaved) ∧
    Registry.flow.WellBehaved ∧ Registry.group.WellBehaved := by
  refine ⟨?_, Registry.wellBehaved_standard, Registry.wellBehaved_form, Registry.wellBehaved_flow,
    Registry.wellBehaved_group⟩
  intro engine text context s s' hregistry hcache hvalid hbinds e he
  obtain ⟨tree, hreading, hend, hfindings⟩ := clean_of_validate hcache hvalid
  have hknown := Visit.known_of_findings hfindings (hbinds tree hreading)
  have hexplained := Expr.explained_of_clean engine.settings.maxDepth tree ⟨hend, hknown⟩
  obtain ⟨houtcome, hcalls⟩ := evaluate_of_reading hcache hreading context
  have hexplains := hexplained e (houtcome.symm.trans he)
  exact ⟨hexplains.unforeseen hregistry, _, hcalls, hexplains⟩

/-- A name behind the transform from outside, with the fewest levels that this takes. -/
theorem parse_doubled {limit : Nat} (h : 2 ≤ limit) :
    Expr.parse Registry.doubling.grammar limit "x|double" =
      .ok (.transform "double" (.identifier "x") []) := by
  have hsymbols : Registry.doubling.grammar.symbols = _ := Registry.symbols_standard
  have hlexes : LexesTo Registry.doubling.grammar.symbols "x|double"
      [.identifier "x", .mark .pipe, .identifier "double"] := by
    rw [LexesTo, hsymbols]
    rfl
  exact Expr.parse_eq_ok_iff.mpr ⟨.pipe (.leaf (.identifier "x")) "double",
    (Phrase.parse_eq_ok_iff hlexes).mpr ⟨.pipe "double" (.leaf _) rfl, rfl, h⟩, rfl⟩

/-- A string behind a transform from outside: the validation finds nothing, and the evaluation fails in
the words of that transform. -/
theorem evaluate_doubled_string :
    let engine : Engine := ⟨.doubling, { cache := false }⟩
    let context : Context := [("x", .string "a")]
    let refusal : Error := .mismatch (.reason "double expects a number")
    (engine.validate "x|double").outcome .start = .ok [] ∧
      (engine.evaluate "x|double" context).outcome .start = .error refusal ∧
      ∃ calls, ((engine.evaluate "x|double" context).after .start).calls =
          Session.start.calls ++ calls ∧ engine.registry.Explains calls refusal := by
  intro engine context refusal
  have hreading : engine.reading "x|double" = .ok (.transform "double" (.identifier "x") []) :=
    parse_doubled (by decide)
  have hvalid : (engine.validate "x|double").outcome .start = .ok [] := by
    rw [outcome_validate, outcome_analyze rfl hreading]
    rfl
  have hbinds : engine.Binds context "x|double" := by
    intro e he name hname
    obtain rfl := Except.ok.inj (hreading.symm.trans he)
    have hvisits : .identifier name ∈
        [Visit.transform "double" (.identifier "x") [], .identifier "x"] := hname
    obtain rfl : name = "x" := by simpa using hvisits
    exact ⟨_, rfl⟩
  have hfails : (engine.evaluate "x|double" context).outcome .start = .error refusal :=
    (evaluate_of_reading rfl hreading context).1
  obtain ⟨-, hexplained⟩ := evaluate_of_validate.1 engine "x|double" context .start .start
    Registry.wellBehaved_doubling rfl hvalid hbinds refusal hfails
  exact ⟨hvalid, hfails, hexplained⟩

end PipeExpr.Engine
