import PipeExpr.Proofs.Expr.Preorder
import PipeExpr.Proofs.Expr.Subjects
import PipeExpr.Proofs.Parser.Names
import PipeExpr.Proofs.Registry.Represented
import PipeExpr.Proofs.Session.Validation

/-!
Findings node by node. A validation whose walk comes to its end reports each node that may not be
used, once and in preorder. Lists of what may be used only take away: under more or shorter lists
whatever was reported is reported again.
-/
namespace PipeExpr

namespace Allowance
variable {r : Registry} {a : Allowance}

def Listed (names : Option (List String)) (name : String) : Prop :=
  ∀ listed, names = some listed → name ∈ listed

theorem lists_iff {names : Option (List String)} {name : String} :
    lists names name = true ↔ Listed names name := by
  cases names with
  | none => simp [lists, Listed]
  | some listed => simp [lists, Listed]

theorem transform?_eq_none {name : String} :
    a.transform? r name = none ↔ r.transform? name = none ∨ ¬Listed a.transforms name := by
  rw [← lists_iff, transform?]
  cases lists a.transforms name <;> simp

theorem transform?_eq_some {name : String} {registered : RegisteredTransform} :
    a.transform? r name = some registered ↔
      r.transform? name = some registered ∧ Listed a.transforms name := by
  rw [← lists_iff, transform?]
  cases lists a.transforms name <;> simp

/-- Where there was a list there is one, with no name more. -/
def Shortens (names' names : Option (List String)) : Prop :=
  ∀ listed, names = some listed → ∃ listed', names' = some listed' ∧ listed' ⊆ listed

theorem Shortens.listed {names names' : Option (List String)} (h : Shortens names' names)
    {name : String} (hname : Listed names' name) : Listed names name := by
  intro listed hlisted
  obtain ⟨listed', hlisted', hsubset⟩ := h listed hlisted
  exact hsubset (hname listed' hlisted')

structure Narrows (a' a : Allowance) : Prop where
  transforms : Shortens a'.transforms a.transforms
  operators : Shortens a'.operators a.operators

end Allowance

namespace Expr
open Allowance (Listed transform?_eq_none transform?_eq_some)
variable {r : Registry} {a a' : Allowance}

/-- A transform that is not registered or not on the list, or whose subject is against its rule; an
operator that is not on the list, or not registered if there is none. -/
def Offends (r : Registry) (a : Allowance) : Expr → Prop
  | .transform name subject _ =>
    r.transform? name = none ∨ ¬Listed a.transforms name ∨
      ∃ registered rule, r.transform? name = some registered ∧ registered.rule = some rule ∧
        ¬∃ v, subject.literal? = some v ∧ rule.Admits v
  | .binary operator _ _ =>
    match a.operators with
    | none => r.operator? operator = none
    | some tokens => operator ∉ tokens
  | _ => False

/-- What is reported of a node: of a transform that is not to be had nothing about its subject. -/
inductive Reports (r : Registry) (a : Allowance) : Expr → Finding → Prop where
  | undefined {name : String} {subject : Expr} {arguments : List Expr} :
      r.transform? name = none ∨ ¬Listed a.transforms name →
      Reports r a (.transform name subject arguments) (.undefinedTransform name)
  | unfit {name : String} {subject : Expr} {arguments : List Expr}
      {registered : RegisteredTransform} {rule : SubjectRule} :
      r.transform? name = some registered → Listed a.transforms name →
      registered.rule = some rule → (¬∃ v, subject.literal? = some v ∧ rule.Admits v) →
      Reports r a (.transform name subject arguments) (.unfitSubject name rule subject)
  | refused {operator : String} {left right : Expr} :
      (Expr.binary operator left right).Offends r a →
      Reports r a (.binary operator left right) (.refusedOperator operator)

def finding? (r : Registry) (a : Allowance) (node : Expr) : Option Finding :=
  node.visit?.bind (Visit.finding? r a)

theorem offends_binary {operator : String} {left right : Expr} :
    (Expr.binary operator left right).Offends r a ↔ a.admitsOperator r operator = false := by
  unfold Offends Allowance.admitsOperator
  cases a.operators with
  | none => simp [Registry.hasOperator, Registry.operator?, Table.contains]
  | some tokens => simp

theorem reports_of_finding? {node : Expr} {finding : Finding}
    (h : node.finding? r a = some finding) : node.Reports r a finding := by
  cases node with
  | transform name subject arguments =>
    change Visit.finding? r a (.transform name subject arguments) = some finding at h
    rw [Visit.finding?] at h
    cases htransform : a.transform? r name with
    | none =>
      rw [htransform] at h
      obtain rfl := Option.some.inj h
      exact .undefined (transform?_eq_none.mp htransform)
    | some registered =>
      obtain ⟨hregistered, hlisted⟩ := transform?_eq_some.mp htransform
      rw [htransform] at h
      obtain ⟨rule, hrule, hfinding⟩ := Option.bind_eq_some_iff.mp h
      rw [SubjectRule.finding?] at hfinding
      split at hfinding
      · cases hfinding
      · next hholds =>
        obtain rfl := Option.some.inj hfinding
        exact .unfit hregistered hlisted hrule fun hv => hholds (SubjectRule.holds_iff.mpr hv)
  | binary operator left right =>
    change Visit.finding? r a (.binary operator) = some finding at h
    rw [Visit.finding?] at h
    split at h
    · cases h
    · next hadmits =>
      obtain rfl := Option.some.inj h
      exact .refused (offends_binary.mpr (Bool.eq_false_iff.mpr hadmits))
  | _ => cases h

theorem Reports.finding?_eq {node : Expr} {finding : Finding} (h : node.Reports r a finding) :
    node.finding? r a = some finding := by
  cases h with
  | undefined h => simp [finding?, visit?, Visit.finding?, transform?_eq_none.mpr h]
  | unfit hregistered hlisted hrule hsubject =>
    have htransform := transform?_eq_some.mpr ⟨hregistered, hlisted⟩
    simp [finding?, visit?, Visit.finding?, htransform, hrule, SubjectRule.finding?,
      SubjectRule.holds_iff, hsubject]
  | refused h => simp [finding?, visit?, Visit.finding?, offends_binary.mp h]

theorem finding?_eq_some {node : Expr} {finding : Finding} :
    node.finding? r a = some finding ↔ node.Reports r a finding :=
  ⟨reports_of_finding?, Reports.finding?_eq⟩

theorem offends_iff {node : Expr} : node.Offends r a ↔ ∃ finding, node.Reports r a finding := by
  constructor
  · intro h
    cases node with
    | transform name subject arguments =>
      by_cases hregistered : r.transform? name = none ∨ ¬Listed a.transforms name
      · exact ⟨_, .undefined hregistered⟩
      · rw [not_or, not_not] at hregistered
        obtain hnone | hnot | ⟨registered, rule, hsome, hrule, hsubject⟩ := h
        · exact absurd hnone hregistered.1
        · exact absurd hregistered.2 hnot
        · exact ⟨_, .unfit hsome hregistered.2 hrule hsubject⟩
    | binary operator left right => exact ⟨_, .refused h⟩
    | _ => cases h
  · rintro ⟨_, h⟩
    cases h with
    | undefined h => exact h.imp_right .inl
    | unfit hregistered _ hrule hsubject => exact .inr (.inr ⟨_, _, hregistered, hrule, hsubject⟩)
    | refused h => exact h

theorem offends_iff_isSome {node : Expr} :
    node.Offends r a ↔ (node.finding? r a).isSome = true := by
  rw [offends_iff, Option.isSome_iff_exists]
  exact exists_congr fun finding => finding?_eq_some.symm

instance (r : Registry) (a : Allowance) : DecidablePred (Offends r a) :=
  fun _ => decidable_of_iff _ offends_iff_isSome.symm

theorem findings_visits (nodes : List Expr) :
    Visit.findings r a (nodes.filterMap visit?) = nodes.filterMap (finding? r a) :=
  List.filterMap_filterMap

/-- The nodes that offend are reported one by one, in their order. -/
theorem forall₂_reports (nodes : List Expr) :
    List.Forall₂ (Reports r a) (nodes.filter (Offends r a ·)) (nodes.filterMap (finding? r a)) := by
  induction nodes with
  | nil => exact .nil
  | cons node rest ih =>
    cases hnode : node.finding? r a with
    | none =>
      have hoffends : ¬node.Offends r a := by simp [offends_iff_isSome, hnode]
      rw [List.filter_cons_of_neg (by simpa using hoffends), List.filterMap_cons_none hnode]
      exact ih
    | some finding =>
      have hoffends : node.Offends r a := by simp [offends_iff_isSome, hnode]
      rw [List.filter_cons_of_pos (by simpa using hoffends), List.filterMap_cons_some hnode]
      exact .cons (finding?_eq_some.mp hnode) ih

/-- What offends under longer lists offends under shorter ones. Where there was no list of operators,
only one that is not registered offended. -/
theorem Offends.narrow {node : Expr} (ha : a'.Narrows a)
    (hknown : ∀ operator left right, node = .binary operator left right →
      (r.operator? operator).isSome = true) (h : node.Offends r a) : node.Offends r a' := by
  cases node with
  | transform name subject arguments =>
    exact h.imp_right (Or.imp_left (mt ha.transforms.listed))
  | binary operator left right =>
    unfold Offends at h ⊢
    cases htokens : a.operators with
    | none =>
      rw [htokens] at h
      have hsome := hknown operator left right rfl
      rw [h] at hsome
      cases hsome
    | some tokens =>
      obtain ⟨tokens', htokens', hsubset⟩ := ha.operators tokens htokens
      rw [htokens] at h
      rw [htokens']
      exact fun hmem => h (hsubset hmem)
  | _ => cases h

theorem operator?_of_parse (hr : r.Built) {limit : Nat} {text : String} {e : Expr}
    (h : Expr.parse r.grammar limit text = .ok e) {operator : String} {left right : Expr}
    (hnode : .binary operator left right ∈ e.nodes) : (r.operator? operator).isSome = true := by
  obtain ⟨ts, -, hnamed⟩ := namedIn_of_parse hr.sound h
  have hknown : (r.grammar.precedence? operator).isSome = true := (hnamed _ hnode).1
  rwa [hr.mirrored.precedence?_eq, Option.isSome_map] at hknown

end Expr

namespace Engine
open PipeExpr.Expr (Offends Reports)
variable {engine : Engine} {text : String} {e : Expr}

theorem outcome_validate_of_walk (hcache : engine.settings.cache = false)
    (hreading : engine.reading text = .ok e)
    (hwalk : (e.walk engine.settings.maxDepth).outcome = .ok ()) (a : Allowance) (s : Session) :
    (engine.validate text a).outcome s =
      .ok (e.nodes.filterMap (Expr.finding? engine.registry a)) := by
  rw [outcome_validate, outcome_analyze_of_walk hcache hreading hwalk, Expr.events_of_walk hwalk,
    Expr.findings_visits]

/-- A validation whose walk comes to its end reports every node that offends once, in preorder, and
nothing else. With more or shorter lists of what may be used the nodes that offended still do, and no
fewer are reported. -/
theorem validate_per_node (hr : engine.registry.Built) (hcache : engine.settings.cache = false)
    (hreading : engine.reading text = .ok e)
    (hwalk : (e.walk engine.settings.maxDepth).outcome = .ok ()) :
    (∀ a s, ∃ findings, (engine.validate text a).outcome s = .ok findings ∧
      List.Forall₂ (Reports engine.registry a) (e.nodes.filter (Offends engine.registry a ·))
        findings) ∧
    ∀ a a' : Allowance, a'.Narrows a →
      (∀ node ∈ e.nodes, node.Offends engine.registry a → node.Offends engine.registry a') ∧
      ∀ s s' findings findings', (engine.validate text a).outcome s = .ok findings →
        (engine.validate text a').outcome s' = .ok findings' →
        findings.length ≤ findings'.length := by
  refine ⟨?_, ?_⟩
  · intro a s
    exact ⟨_, outcome_validate_of_walk hcache hreading hwalk a s, Expr.forall₂_reports e.nodes⟩
  · intro a a' ha
    have hoffends : ∀ node ∈ e.nodes,
        node.Offends engine.registry a → node.Offends engine.registry a' := by
      rintro node hnode h
      refine h.narrow ha ?_
      rintro operator left right rfl
      exact Expr.operator?_of_parse hr hreading hnode
    refine ⟨hoffends, ?_⟩
    intro s s' findings findings' h h'
    rw [outcome_validate_of_walk hcache hreading hwalk] at h h'
    obtain rfl := Except.ok.inj h
    obtain rfl := Except.ok.inj h'
    rw [← (Expr.forall₂_reports e.nodes).length_eq, ← (Expr.forall₂_reports e.nodes).length_eq,
      ← List.countP_eq_length_filter, ← List.countP_eq_length_filter]
    exact List.countP_mono_left fun node hnode => by simpa using hoffends node hnode

/-- A subject against its rule and an unknown transform; under lists that know neither `task` nor `+`
each of the three operations is reported. -/
theorem validate_per_node_narrowed :
    let engine : Engine := ⟨.flow, { cache := false }⟩
    let narrow : Allowance := ⟨some ["y"], some []⟩
    let x : Expr := .identifier "x"
    narrow.Narrows .all ∧ ∃ findings findings',
      (engine.validate "x|task + y|z").outcome .start = .ok findings ∧
      (engine.validate "x|task + y|z" narrow).outcome .start = .ok findings' ∧
      List.Forall₂ (Reports .flow .all) [.transform "task" x [], .transform "z" (.identifier "y") []]
        findings ∧
      findings' = [.refusedOperator "+", .undefinedTransform "task", .undefinedTransform "z"] ∧
      findings.length ≤ findings'.length := by
  intro engine narrow x
  have hlexes : LexesTo Registry.flow.grammar.symbols "x|task + y|z"
      [.identifier "x", .mark .pipe, .identifier "task", .operator "+", .identifier "y",
        .mark .pipe, .identifier "z"] := by
    have hsymbols : Registry.flow.grammar.symbols = Registry.standard.grammar.symbols := rfl
    rw [hsymbols, Registry.symbols_standard]
    decide +kernel
  have hplus : Registry.flow.grammar.precedence? "+" = some 30 := by decide +kernel
  have hreading : engine.reading "x|task + y|z" = .ok
      (.binary "+" (.transform "task" x []) (.transform "z" (.identifier "y") [])) :=
    Expr.parse_settled (p := .binary (.symbol "+") (.pipe (.leaf (.identifier "x")) "task")
        (.pipe (.leaf (.identifier "y")) "z")) hlexes (show 15 ≤ 128 by decide)
      (.binary hplus (.pipe _ (.leaf _) rfl) (.pipe _ (.leaf _) rfl) trivial trivial) rfl
  have hnarrow : narrow.Narrows .all := ⟨nofun, nofun⟩
  have hvalidate := validate_per_node Registry.built_flow rfl hreading rfl
  obtain ⟨findings, hfindings, hreports⟩ := hvalidate.1 .all .start
  have hnarrowed := outcome_validate_of_walk rfl hreading rfl narrow .start
  exact ⟨hnarrow, findings, _, hfindings, hnarrowed, hreports, rfl,
    (hvalidate.2 .all narrow hnarrow).2 .start .start _ _ hfindings hnarrowed⟩

end Engine
end PipeExpr
