import PipeExpr.Analysis.Extraction
import PipeExpr.Proofs.Expr.Calls
import PipeExpr.Proofs.Expr.Foresight
import PipeExpr.Proofs.Expr.Visits

/-!
The subjects that rules ask for. If a validation finds nothing, then a transform with a rule is never
called with a subject but one that is written out, that keeps to the rule, and that an extraction
lists.
-/
namespace PipeExpr

def SubjectRule.Admits : SubjectRule → Value → Prop
  | .stringLiteral, v => ∃ text, v = .string text
  | .stringArrayLiteral, v => ∃ texts : List String, v = .array (texts.map .string)

theorem SubjectRule.holds_iff {rule : SubjectRule} {subjectAt : Expr} :
    rule.holds subjectAt = true ↔ ∃ v, subjectAt.literal? = some v ∧ rule.Admits v := by
  unfold holds
  cases hv : subjectAt.literal? with
  | none => cases rule <;> simp
  | some v =>
    cases rule with
    | stringLiteral =>
      simp [Admits, Option.isSome_iff_exists, Value.string?_eq_some]
    | stringArrayLiteral =>
      simp [Admits, Option.isSome_iff_exists, Value.strings?_eq_some]

theorem Visit.mem_subjects {visits : List Visit} {names : List String} {name : String}
    {subjectAt : Expr} {argumentsAt : List Expr} {v : Value}
    (hvisit : .transform name subjectAt argumentsAt ∈ visits) (hname : selects names name = true)
    (hv : subjectAt.literal? = some v) : v ∈ subjects names visits := by
  refine List.mem_filterMap.mpr ⟨_, hvisit, ?_⟩
  rw [subject?, if_pos hname, hv]

namespace Expr
variable {r : Registry} {limit : Nat} {e : Expr}

/-- Whatever the context and the branches taken, a call stands at a node that the walk has visited,
and is handed what is written there. -/
theorem subject_of_call (hwalk : (e.walk limit).outcome = .ok ())
    (hfindings : Visit.findings r .all (e.walk limit).events = []) {context : Context} {limit' : Nat}
    {name : String} {subjectAt : Expr} {argumentsAt : List Expr} {subject : Value}
    {arguments : List Value}
    (hcall : .transform name subjectAt argumentsAt subject arguments ∈
      (e.evaluate r context limit').events) :
    ∃ registered, r.transform? name = some registered ∧
      ∀ rule, registered.rule = some rule → rule.Admits subject ∧
        ∀ names, selects names name = true →
          subject ∈ Visit.subjects names (e.walk limit).events := by
  have hvisit : .transform name subjectAt argumentsAt ∈ (e.walk limit).events :=
    (calls_subperm_visits hwalk r context limit').subset (List.mem_map_of_mem (f := Call.visit) hcall)
  obtain ⟨registered, hregistered, hholds⟩ := Visit.registered_of_findings hfindings hvisit
  refine ⟨registered, hregistered, ?_⟩
  intro rule hrule
  obtain ⟨v, hv, hadmits⟩ := SubjectRule.holds_iff.mp (hholds rule hrule)
  have hwritten := (orderly_evaluateWithin r context limit' limit' e).written _ hcall
  obtain rfl : subject = v := hwritten.1 v hv
  exact ⟨hadmits, fun names hname => Visit.mem_subjects hvisit hname hv⟩

end Expr
end PipeExpr
