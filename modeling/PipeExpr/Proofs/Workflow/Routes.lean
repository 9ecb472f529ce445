import PipeExpr.Proofs.Expr.Subjects
import PipeExpr.Proofs.Session.Validation

/-!
Routes of valid expressions. Whatever the case at hand, an evaluation routes to nothing but the slugs
that are told without evaluating, and every transform that routes hands its subject on.
-/
namespace PipeExpr

def Value.RoutesTo (slugs : List String) : Value → Prop
  | .string slug => slug ∈ slugs
  | .array items => ∀ item ∈ items, ∃ slug ∈ slugs, item = .string slug
  | _ => False

theorem SubjectRule.Admits.routesTo {rule : SubjectRule} {v : Value} {slugs : List String}
    (h : rule.Admits v) (hslugs : ∀ slug ∈ v.slugs, slug ∈ slugs) : v.RoutesTo slugs := by
  cases rule with
  | stringLiteral =>
    obtain ⟨slug, rfl⟩ := h
    exact hslugs slug List.mem_cons_self
  | stringArrayLiteral =>
    obtain ⟨texts, rfl⟩ := h
    intro item hitem
    obtain ⟨slug, hslug, rfl⟩ := List.mem_map.mp hitem
    exact ⟨slug, hslugs slug (List.mem_filterMap.mpr ⟨_, hitem, rfl⟩), rfl⟩

def Transform.routing : List String := ["task", "tasks", "groups"]

/-- A call of a transform that routes is answered with its subject, which routes to some of the
slugs. -/
def Call.HandsOn (r : Registry) (slugs : List String) : Call → Prop
  | .transform name subjectAt argumentsAt subject arguments =>
    name ∈ Transform.routing →
      r.answer? (.transform name subjectAt argumentsAt subject arguments) = some (.ok subject) ∧
        subject.RoutesTo slugs
  | .operator .. => True

/-- The transforms that route are among the named ones, and hand on whatever keeps to their rules. -/
def Registry.Routes (r : Registry) (names : List String) : Prop :=
  ∀ name ∈ Transform.routing, ∀ registered, r.transform? name = some registered →
    name ∈ names ∧ ∃ rule, registered.rule = some rule ∧ ∀ subject, rule.Admits subject →
      ∀ arguments, registered.transform.apply subject arguments = .ok subject

namespace Registry

theorem routes_standard (names : List String) : standard.Routes names := by
  have hnone : ∀ name ∈ Transform.routing, standard.hasTransform name = false := by
    decide +kernel
  intro name hname registered hregistered
  have hsome : standard.hasTransform name = true := Option.isSome_iff_exists.mpr ⟨_, hregistered⟩
  rw [hnone name hname] at hsome
  cases hsome

theorem Routes.insertTransform {r : Registry} {names : List String} (h : r.Routes names)
    {name : String} (hname : name ∈ names) {t : Transform} (rule : SubjectRule)
    (ht : ∀ subject, rule.Admits subject → ∀ arguments, t.apply subject arguments = .ok subject) :
    (r.insertTransform name t (some rule)).Routes names := by
  intro other hother registered hregistered
  rw [transform?_insertTransform] at hregistered
  by_cases heq : other = name
  · rw [if_pos heq] at hregistered
    obtain rfl := Option.some.inj hregistered
    rw [heq]
    exact ⟨hname, rule, rfl, ht⟩
  · rw [if_neg heq] at hregistered
    exact h other hother registered hregistered

theorem Routes.insertSlugList {r : Registry} {names : List String} (h : r.Routes names)
    {name : String} (hname : name ∈ names) :
    (r.insertTransform name (.silent (Transform.slugList name)) (some .stringArrayLiteral)).Routes
      names := by
  refine h.insertTransform hname .stringArrayLiteral ?_
  rintro _ ⟨texts, rfl⟩ arguments
  change Transform.slugList name (.array (texts.map .string)) arguments = _
  rw [Transform.slugList, Value.strings?_eq_some.mpr rfl]
  rfl

theorem routes_flow : flow.Routes ["task", "tasks"] := by
  have htask : ∀ subject, SubjectRule.stringLiteral.Admits subject → ∀ arguments,
      Transform.task subject arguments = .ok subject := by
    rintro _ ⟨slug, rfl⟩ arguments
    rfl
  have hstandard := routes_standard ["task", "tasks"]
  have hinserted := hstandard.insertTransform (t := .silent Transform.task) List.mem_cons_self
    .stringLiteral htask
  exact hinserted.insertSlugList (List.mem_cons_of_mem _ List.mem_cons_self)

theorem routes_group : group.Routes ["groups"] :=
  (routes_standard ["groups"]).insertSlugList List.mem_cons_self

end Registry

/-- Whatever the context, a call that routes is handed a subject that the walk has met. -/
theorem Expr.handsOn_of_call {r : Registry} {names slugs : List String} {limit : Nat} {e : Expr}
    (hr : r.Routes names) (hwalk : (e.walk limit).outcome = .ok ())
    (hfindings : Visit.findings r .all (e.walk limit).events = [])
    (hslugs : ∀ v ∈ Visit.subjects names (e.walk limit).events, ∀ slug ∈ v.slugs, slug ∈ slugs)
    (context : Context) (limit' : Nat) :
    ∀ call ∈ (e.evaluate r context limit').events, call.HandsOn r slugs := by
  intro call hcall
  cases call with
  | operator => trivial
  | transform name subjectAt argumentsAt subject arguments =>
    intro hname
    obtain ⟨registered, hregistered, hrules⟩ := Expr.subject_of_call hwalk hfindings hcall
    obtain ⟨hnamed, rule, hrule, hhands⟩ := hr name hname registered hregistered
    obtain ⟨hadmits, hlisted⟩ := hrules rule hrule
    constructor
    · rw [Registry.answer?, hregistered, Option.map_some, hhands subject hadmits]
    · have hselects : selects names name = true := by
        rw [selects, List.contains_iff_mem.mpr hnamed, Bool.or_true]
      exact hadmits.routesTo (hslugs subject (hlisted names hselects))

namespace Engine

/-- An extraction comes to slugs, and no evaluation makes a call that routes to others. -/
def RoutesWithin (engine : Engine) (text : String) (extraction : Step (List String)) : Prop :=
  ∃ slugs, (∀ s, extraction.outcome s = .ok slugs) ∧ ∀ context s, ∃ calls,
    ((engine.evaluate text context).after s).calls = s.calls ++ calls ∧
      ∀ call ∈ calls, call.HandsOn engine.registry slugs

theorem routesWithin_of_validate {engine : Engine} {names : List String} {text : String}
    {s : Session} (hr : engine.registry.Routes names) (hcache : engine.settings.cache = false)
    (hvalid : (engine.validate text).outcome s = .ok []) :
    engine.RoutesWithin text (engine.routes names text) := by
  obtain ⟨e, hreading, hwalk, hfindings⟩ := clean_of_validate hcache hvalid
  refine ⟨_, fun s => outcome_analyze_of_walk hcache hreading hwalk _, ?_⟩
  intro context s
  refine ⟨_, (evaluate_of_reading hcache hreading context).2, ?_⟩
  refine Expr.handsOn_of_call hr hwalk hfindings ?_ context _
  intro v hv slug hslug
  have hmem : slug ∈ (Visit.subjects names (e.walk engine.settings.maxDepth).events).flatMap
      Value.slugs := List.mem_flatMap.mpr ⟨v, hv, hslug⟩
  rw [Table.mem_keys_ofList, List.map_map]
  exact List.mem_map.mpr ⟨slug, hmem, rfl⟩

/-- Where a validation finds nothing, the tasks of a flow expression are all that its evaluations can
route to, and so are the groups of a group expression. -/
theorem routesWithin_flow_group {settings : Settings} {text : String} {s : Session}
    (hcache : settings.cache = false) :
    (((flow settings).validate text).outcome s = .ok [] →
      (flow settings).RoutesWithin text ((flow settings).tasks text)) ∧
    (((group settings).validate text).outcome s = .ok [] →
      (group settings).RoutesWithin text ((group settings).groups text)) :=
  ⟨routesWithin_of_validate Registry.routes_flow hcache,
    routesWithin_of_validate Registry.routes_group hcache⟩

theorem routesWithin_conditional :
    (flow { cache := false }).RoutesWithin "x ? 'a'|task : ['b']|tasks"
      ((flow { cache := false }).tasks "x ? 'a'|task : ['b']|tasks") ∧
    (group { cache := false }).RoutesWithin "['g']|groups"
      ((group { cache := false }).groups "['g']|groups") := by
  have htasks : LexesTo Registry.flow.grammar.symbols "x ? 'a'|task : ['b']|tasks"
      [.identifier "x", .mark .question, .string "a", .mark .pipe, .identifier "task", .mark .colon,
        .mark .leftBracket, .string "b", .mark .rightBracket, .mark .pipe, .identifier "tasks"] := by
    have hsymbols : Registry.flow.grammar.symbols = Registry.standard.grammar.symbols := rfl
    rw [hsymbols, Registry.symbols_standard]
    decide +kernel
  have hgroups : LexesTo Registry.group.grammar.symbols "['g']|groups"
      [.mark .leftBracket, .string "g", .mark .rightBracket, .mark .pipe, .identifier "groups"] := by
    have hsymbols : Registry.group.grammar.symbols = Registry.standard.grammar.symbols := rfl
    rw [hsymbols, Registry.symbols_standard]
    decide +kernel
  have hroute : (flow { cache := false }).reading "x ? 'a'|task : ['b']|tasks" =
      .ok (.conditional (.identifier "x") (.transform "task" (.literal (.string "a")) [])
        (.transform "tasks" (.array [.literal (.string "b")]) [])) :=
    Expr.parse_settled (p := .conditional (.leaf (.identifier "x"))
        (.pipe (.leaf (.string "a")) "task") (.pipe (.array [.leaf (.string "b")]) "tasks")) htasks
      (show 23 ≤ 128 by decide)
      (.conditional (.leaf _) rfl (.pipe _ (.leaf _) rfl)
        (.pipe _ (.array (List.forall_mem_singleton.mpr (.leaf _))) rfl)) rfl
  have hassign : (group { cache := false }).reading "['g']|groups" =
      .ok (.transform "groups" (.array [.literal (.string "g")]) []) :=
    Expr.parse_settled (p := .pipe (.array [.leaf (.string "g")]) "groups") hgroups
      (show 11 ≤ 128 by decide) (.pipe _ (.array (List.forall_mem_singleton.mpr (.leaf _))) rfl) rfl
  have hflow := validate_of_walk (s := .start) rfl hroute rfl
    (List.isEmpty_iff.mp (by decide +kernel))
  have hgroup := validate_of_walk (s := .start) rfl hassign rfl
    (List.isEmpty_iff.mp (by decide +kernel))
  exact ⟨(routesWithin_flow_group rfl).1 hflow, (routesWithin_flow_group rfl).2 hgroup⟩

end Engine
end PipeExpr
