import PipeExpr.Analysis.Extraction
import PipeExpr.Proofs.Expr.Calls
import PipeExpr.Proofs.Expr.Visits
import PipeExpr.Registry.Standard

/-!
Extraction against evaluation. What is written out literally is what a call is handed, so an extraction
lists the literal calls of every evaluation, each as often as it is made at least.
-/
namespace PipeExpr

theorem subperm_filterMap {α β : Type} {xs ys : List α} (f : α → Option β) (h : xs.Subperm ys) :
    (xs.filterMap f).Subperm (ys.filterMap f) := by
  obtain ⟨zs, hperm, hsub⟩ := h
  exact ⟨zs.filterMap f, hperm.filterMap f, hsub.filterMap f⟩

namespace Call

def literalSubject? (names : List String) : Call → Option Value
  | .transform name subjectAt _ subject _ =>
    if selects names name && subjectAt.literal?.isSome then some subject else none
  | .operator .. => none

def literalCall? (names : List String) : Call → Option LiteralCall
  | .transform name subjectAt argumentsAt subject arguments =>
    if selects names name && subjectAt.literal?.isSome && (Expr.literals? argumentsAt).isSome then
      some ⟨name, subject, arguments⟩
    else none
  | .operator .. => none

def literalSubjects (names : List String) (calls : List Call) : List Value :=
  calls.filterMap (literalSubject? names)

def literalCalls (names : List String) (calls : List Call) : List LiteralCall :=
  calls.filterMap (literalCall? names)

variable {names : List String} {call : Call} {calls : List Call}

theorem AsWritten.literalSubject?_eq (h : call.AsWritten) :
    call.literalSubject? names = call.visit.subject? names := by
  cases call with
  | operator token left right => rfl
  | transform name subjectAt argumentsAt subject arguments =>
    simp only [literalSubject?, visit, Visit.subject?]
    cases selects names name with
    | false => rfl
    | true =>
      cases hv : subjectAt.literal? with
      | none => rfl
      | some v =>
        obtain rfl : subject = v := h.1 v hv
        rfl

theorem AsWritten.literalCall?_eq (h : call.AsWritten) :
    call.literalCall? names = call.visit.call? names := by
  cases call with
  | operator token left right => rfl
  | transform name subjectAt argumentsAt subject arguments =>
    simp only [literalCall?, visit, Visit.call?]
    cases selects names name with
    | false => rfl
    | true =>
      cases hv : subjectAt.literal? with
      | none => rfl
      | some v =>
        cases hvs : Expr.literals? argumentsAt with
        | none => rfl
        | some vs =>
          obtain rfl : subject = v := h.1 v hv
          obtain rfl : arguments = vs := h.2 vs hvs
          rfl

theorem subject_of_literalCall? {c : LiteralCall} (h : call.literalCall? names = some c) :
    call.literalSubject? names = some c.subject := by
  cases call with
  | operator token left right => cases h
  | transform name subjectAt argumentsAt subject arguments =>
    rw [literalCall?, Option.ite_none_right_eq_some, Bool.and_eq_true] at h
    obtain ⟨⟨hsubject, -⟩, hc⟩ := h
    obtain rfl := Option.some.inj hc
    exact if_pos hsubject

theorem literalCalls_subjects_sublist (names : List String) (calls : List Call) :
    ((literalCalls names calls).map LiteralCall.subject).Sublist (literalSubjects names calls) := by
  unfold literalCalls literalSubjects
  induction calls with
  | nil => exact .slnil
  | cons call rest ih =>
    cases hcall : call.literalCall? names with
    | some c =>
      rw [List.filterMap_cons_some hcall, List.map_cons,
        List.filterMap_cons_some (subject_of_literalCall? hcall)]
      exact ih.cons_cons c.subject
    | none =>
      rw [List.filterMap_cons_none hcall]
      refine ih.trans ((List.sublist_cons_self call rest).filterMap _)

theorem literalSubjects_eq (h : ∀ call ∈ calls, call.AsWritten) :
    literalSubjects names calls = Visit.subjects names (calls.map visit) := by
  rw [Visit.subjects, List.filterMap_map]
  exact List.filterMap_congr fun call hcall => (h call hcall).literalSubject?_eq

theorem literalCalls_eq (h : ∀ call ∈ calls, call.AsWritten) :
    literalCalls names calls = Visit.calls names (calls.map visit) := by
  rw [Visit.calls, List.filterMap_map]
  exact List.filterMap_congr fun call hcall => (h call hcall).literalCall?_eq

end Call

namespace Expr

/-- The literal calls of an evaluation, whether it succeeds or not, are among those that are
extracted. So are the subjects of these, and those of all calls with a literal subject. -/
theorem literalCalls_subperm {limit : Nat} {e : Expr} (hwalk : (e.walk limit).outcome = .ok ())
    (r : Registry) (context : Context) (limit' : Nat) (names : List String) :
    (Call.literalCalls names (e.evaluate r context limit').events).Subperm
        (Visit.calls names (e.walk limit).events) ∧
      ((Call.literalCalls names (e.evaluate r context limit').events).map
        LiteralCall.subject).Subperm (Visit.subjects names (e.walk limit).events) ∧
      (Call.literalSubjects names (e.evaluate r context limit').events).Subperm
        (Visit.subjects names (e.walk limit).events) := by
  have hvisits := calls_subperm_visits hwalk r context limit'
  have hwritten : ∀ call ∈ (e.evaluate r context limit').events, call.AsWritten :=
    (orderly_evaluateWithin r context limit' limit' e).written
  have hsubjects : (Call.literalSubjects names (e.evaluate r context limit').events).Subperm
      (Visit.subjects names (e.walk limit).events) := by
    rw [Call.literalSubjects_eq hwritten]
    exact subperm_filterMap _ hvisits
  refine ⟨?_, ?_, hsubjects⟩
  · rw [Call.literalCalls_eq hwritten]
    exact subperm_filterMap _ hvisits
  · exact (Call.literalCalls_subjects_sublist names _).subperm.trans hsubjects

/-- An evaluation that a transform from outside refuses to go on with, behind the first of two literal
calls of `count`. The extraction lists both. -/
theorem literalCalls_refused :
    let counted : Expr := .transform "count" (.array [.literal (.boolean true)]) []
    let e : Expr := .array [counted, .transform "double" (.literal (.string "a")) [], counted]
    let made : List LiteralCall :=
      [⟨"count", .array [.boolean true], []⟩, ⟨"double", .string "a", []⟩]
    (e.walk 4).outcome = .ok () ∧
      (e.evaluate .doubling [] 4).outcome =
        .error (.mismatch (.reason "double expects a number")) ∧
      Call.literalCalls [] (e.evaluate .doubling [] 4).events = made ∧
      made.Subperm (Visit.calls [] (e.walk 4).events) := by
  intro counted e made
  have hwalk : (e.walk 4).outcome = .ok () := rfl
  exact ⟨hwalk, rfl, rfl, (literalCalls_subperm hwalk .doubling [] 4 []).1⟩

end Expr
end PipeExpr
