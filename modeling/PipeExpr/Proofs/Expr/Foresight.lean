import PipeExpr.Analysis.Validation
import PipeExpr.Proofs.Registry.Conduct

/-!
What a walk tells about an evaluation. The walk goes down the same levels as the evaluation and
further, since it takes every branch. If it meets nothing unknown, the evaluation ends with a value,
or with an error that only values can cause.
-/
namespace PipeExpr

/-- What is visited is registered, or bound in the context. -/
def Visit.Known (r : Registry) (context : Context) : Visit → Prop
  | .transform name _ _ => ∃ registered, r.transform? name = some registered
  | .binary token => ∃ operator, r.operator? token = some operator
  | .identifier name => ∃ v, context.find? name = some v

/-- Why an evaluation fails that makes these calls: the last one was answered so, or a value was
negated that is no number, or asked for a member that it cannot have. -/
inductive Registry.Explains (r : Registry) : List Call → Error → Prop where
  | answer (before : List Call) {call : Call} {e : Error} : r.answer? call = some (.error e) →
      Explains r (before ++ [call]) e
  | negation (calls : List Call) (kind : Kind) : Explains r calls (.mismatch (.negation kind))
  | property (calls : List Call) (shown : String) (kind : Kind) :
      Explains r calls (.mismatch (.property shown kind))

theorem Registry.Explains.prepend {r : Registry} {calls : List Call} {e : Error}
    (h : r.Explains calls e) (earlier : List Call) : r.Explains (earlier ++ calls) e := by
  cases h with
  | answer before hcall =>
    rw [← List.append_assoc]
    exact .answer (earlier ++ before) hcall
  | negation => exact .negation _ _
  | property => exact .property _ _ _

theorem Registry.Explains.unforeseen {r : Registry} {calls : List Call} {e : Error}
    (he : r.Explains calls e) (h : r.WellBehaved) : e.isForeseeable = false := by
  cases he with
  | answer before hcall => exact h _ _ hcall e rfl
  | negation => rfl
  | property => rfl

namespace Visit
variable {r : Registry} {visits : List Visit}

theorem registered_of_findings (h : findings r .all visits = []) {name : String} {subjectAt : Expr}
    {argumentsAt : List Expr} (hvisit : .transform name subjectAt argumentsAt ∈ visits) :
    ∃ registered, r.transform? name = some registered ∧
      ∀ rule, registered.rule = some rule → rule.holds subjectAt = true := by
  have hnone := List.filterMap_eq_nil_iff.mp h _ hvisit
  have hlookup : Allowance.all.transform? r name = r.transform? name := rfl
  rw [finding?, hlookup] at hnone
  cases hregistered : r.transform? name with
  | none =>
    rw [hregistered] at hnone
    cases hnone
  | some registered =>
    rw [hregistered] at hnone
    refine ⟨registered, rfl, ?_⟩
    intro rule hrule
    have hfinding : rule.finding? name subjectAt = none :=
      Option.bind_eq_none_iff.mp hnone rule hrule
    by_cases hholds : rule.holds subjectAt = true
    · exact hholds
    · rw [SubjectRule.finding?, if_neg hholds] at hfinding
      cases hfinding

theorem known_of_findings {context : Context} (h : findings r .all visits = [])
    (hbinds : ∀ name, .identifier name ∈ visits → ∃ v, context.find? name = some v) :
    ∀ visit ∈ visits, visit.Known r context := by
  intro visit hvisit
  cases visit with
  | identifier name => exact hbinds name hvisit
  | transform name subjectAt argumentsAt =>
    obtain ⟨registered, hregistered, -⟩ := registered_of_findings h hvisit
    exact ⟨registered, hregistered⟩
  | binary token =>
    have hnone := List.filterMap_eq_nil_iff.mp h _ hvisit
    have hadmits : Allowance.all.admitsOperator r token = r.hasOperator token := rfl
    rw [finding?, hadmits] at hnone
    by_cases hoperator : r.hasOperator token = true
    · exact Option.isSome_iff_exists.mp hoperator
    · rw [if_neg hoperator] at hnone
      cases hnone

end Visit

namespace Traced

/-- A walk that comes to its end and meets nothing unknown. -/
def Clean (r : Registry) (context : Context) (t : Traced Visit Unit) : Prop :=
  t.outcome = .ok () ∧ ∀ visit ∈ t.events, visit.Known r context

/-- A computation that fails for no other reason than values. -/
def Explained {α : Type} (r : Registry) (t : Traced Call α) : Prop :=
  ∀ e, t.outcome = .error e → r.Explains t.events e

section Clean
variable {r : Registry} {context : Context}

theorem not_clean_fail (e : Error) : ¬Clean r context (fail e) := by
  intro h
  cases h.1

theorem Clean.emit {visit : Visit} (h : Clean r context (emit visit)) : visit.Known r context :=
  h.2 visit List.mem_cons_self

theorem Clean.parts {m : Traced Visit Unit} {f : Unit → Traced Visit Unit}
    (h : Clean r context (m >>= f)) : Clean r context m ∧ Clean r context (f ()) := by
  obtain ⟨hend, hknown⟩ := h
  obtain ⟨u, hfirst, hrest⟩ := exists_of_bind_ok hend
  rw [bind_of_ok hfirst] at hknown
  obtain ⟨hknownFirst, hknownRest⟩ := List.forall_mem_append.mp hknown
  exact ⟨⟨hfirst, hknownFirst⟩, ⟨hrest, hknownRest⟩⟩

theorem Clean.each {α : Type} {f : α → Traced Visit Unit} {items : List α}
    (h : Clean r context (each f items)) : ∀ a ∈ items, Clean r context (f a) := by
  induction items with
  | nil => simp
  | cons a rest ih =>
    obtain ⟨ha, hrest⟩ := h.parts
    exact List.forall_mem_cons.mpr ⟨ha, ih hrest⟩

end Clean

section Explained
variable {r : Registry} {α β : Type}

theorem explained_done (a : α) : Explained r (done a) := by
  intro e he
  cases he

theorem explained_ofExcept {x : Except Error α} (h : FailsWith (r.Explains []) x) :
    Explained r (ofExcept x) := h

theorem explained_call {call : Call} {answer : Except Error Value}
    (h : r.answer? call = some answer) :
    Explained r (emit call >>= fun _ => ofExcept answer) := by
  intro e he
  cases answer with
  | ok v => cases he
  | error e' =>
    obtain rfl := Except.error.inj he
    exact .answer [] h

theorem Explained.bind {m : Traced Call α} {f : α → Traced Call β} (hm : Explained r m)
    (hf : ∀ a, Explained r (f a)) : Explained r (m >>= f) := by
  intro e he
  cases ho : m.outcome with
  | error e' =>
    rw [bind_of_error ho] at he ⊢
    obtain rfl := Except.error.inj he
    exact hm e' ho
  | ok a =>
    rw [bind_of_ok ho] at he ⊢
    exact (hf a e he).prepend m.events

theorem explained_all {f : α → Traced Call β} {items : List α}
    (h : ∀ a ∈ items, Explained r (f a)) : Explained r (all f items) := by
  induction items with
  | nil => exact explained_done _
  | cons a rest ih =>
    obtain ⟨ha, hrest⟩ := List.forall_mem_cons.mp h
    exact ha.bind fun b => (ih hrest).bind fun bs => explained_done _

end Explained
end Traced

namespace Expr
open Traced

theorem explains_negated (r : Registry) (v : Value) : FailsWith (r.Explains []) (negated v) := by
  refine (failsWith_negated v).mono ?_
  rintro _ ⟨kind, rfl⟩
  exact .negation [] kind

theorem explains_member (r : Registry) (v key : Value) :
    FailsWith (r.Explains []) (v.member key) := by
  refine (v.failsWith_member key).mono ?_
  rintro _ ⟨shown, kind, rfl⟩
  exact .property [] shown kind

/-- Where the walk comes to an end and knows what it meets, the evaluation can fail on values only.
The levels of the two are counted alike, so the evaluation meets no limit either. -/
theorem explained_of_clean {r : Registry} {context : Context} {limit : Nat} (levels : Nat) (e : Expr)
    (h : Clean r context (walkWithin limit levels e)) :
    Explained r (evaluateWithin r context limit levels e) := by
  induction levels generalizing e with
  | zero => exact absurd h (not_clean_fail _)
  | succ levels ih =>
    cases e with
    | literal v => exact explained_done v
    | identifier name =>
      obtain ⟨v, hv⟩ := h.emit
      rw [evaluateWithin, hv]
      exact explained_done v
    | member target property =>
      obtain ⟨htarget, hproperty⟩ := h.parts
      rw [evaluateWithin]
      cases pathValue? context (.member target property) with
      | some v => exact explained_done v
      | none =>
        exact (ih target htarget).bind fun v => (ih property hproperty).bind fun key =>
          explained_ofExcept (explains_member r v key)
    | not operand => exact (ih operand h).bind fun v => explained_done _
    | negate operand => exact (ih operand h).bind fun v => explained_ofExcept (explains_negated r v)
    | binary token left right =>
      obtain ⟨hvisit, hparts⟩ := h.parts
      obtain ⟨hleft, hright⟩ := hparts.parts
      obtain ⟨⟨n, operation⟩, hoperator⟩ := hvisit.emit
      rw [evaluateWithin, hoperator]
      refine (ih left hleft).bind fun a => ?_
      cases operation with
      | function f =>
        refine (ih right hright).bind fun b => explained_call ?_
        rw [Registry.answer?, hoperator]
      | conjunction =>
        dsimp only
        split
        · exact ih right hright
        · exact explained_done a
      | disjunction =>
        dsimp only
        split
        · exact explained_done a
        · exact ih right hright
    | conditional test consequent alternate =>
      obtain ⟨htest, hbranches⟩ := h.parts
      obtain ⟨hconsequent, halternate⟩ := hbranches.parts
      refine (ih test htest).bind fun v => ?_
      split
      · exact ih consequent hconsequent
      · exact ih alternate halternate
    | transform name subject arguments =>
      obtain ⟨hvisit, hparts⟩ := h.parts
      obtain ⟨hsubject, harguments⟩ := hparts.parts
      obtain ⟨registered, hregistered⟩ := hvisit.emit
      rw [evaluateWithin, hregistered]
      refine (ih subject hsubject).bind fun v => ?_
      refine (explained_all fun e he => ih e (harguments.each e he)).bind fun vs => ?_
      exact explained_call (by rw [Registry.answer?, hregistered]; rfl)
    | array items =>
      exact (explained_all fun e he => ih e (h.each e he)).bind fun vs => explained_done _
    | object entries =>
      refine Explained.bind (explained_all fun entry he => ?_) fun fields => explained_done _
      exact (ih entry.2 (h.each entry he)).bind fun v => explained_done _

end Expr
end PipeExpr
