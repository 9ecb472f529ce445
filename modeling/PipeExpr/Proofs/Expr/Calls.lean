import PipeExpr.Proofs.Expr.Levels
import PipeExpr.Proofs.Registry.Conduct

/-!
The calls of any evaluation. A call is handed the literals that are written at its place. Every call
but the last one is answered with a value; if the last one is answered with an error, the evaluation
ends with that error, and otherwise it ends with a value or an error of its own.
-/
namespace PipeExpr

/-- The error is one that an evaluation raises by itself, and no registered function for it. -/
def Error.isOwn : Error → Bool
  | .unknownTransform _ | .unknownOperator _ | .undefinedIdentifier _ | .depthExceeded _
  | .mismatch (.negation _) | .mismatch (.property ..) => true
  | _ => false

theorem Error.not_isDomain_of_isOwn {e : Error} (h : e.isOwn = true) : e.isDomain = false := by
  cases e with
  | questionNotFound | invalidTraversal => cases h
  | _ => rfl

/-- A literal subject and literal arguments are handed over as they are written. -/
def Call.AsWritten : Call → Prop
  | .transform _ subjectAt argumentsAt subject arguments =>
    (∀ v, subjectAt.literal? = some v → subject = v) ∧
      ∀ vs, Expr.literals? argumentsAt = some vs → arguments = vs
  | .operator .. => True

def Registry.Accepts (r : Registry) (call : Call) : Prop := ∃ v, r.answer? call = some (.ok v)

namespace Traced
variable {r : Registry} {α β : Type}

/-- Either all calls are answered with values, or the last one ends the computation. -/
inductive Answered (r : Registry) (t : Traced Call α) : Prop where
  | values : (∀ call ∈ t.events, r.Accepts call) → (∀ e, t.outcome = .error e → e.isOwn = true) →
      Answered r t
  | refusal {before : List Call} {call : Call} {e : Error} : t.events = before ++ [call] →
      (∀ earlier ∈ before, r.Accepts earlier) → r.answer? call = some (.error e) →
      t.outcome = .error e → Answered r t

structure Orderly (r : Registry) (t : Traced Call α) : Prop where
  written : ∀ call ∈ t.events, call.AsWritten
  answered : Answered r t

theorem Answered.bind {m : Traced Call α} {f : α → Traced Call β} (hm : Answered r m)
    (hf : ∀ a, m.outcome = .ok a → Answered r (f a)) : Answered r (m >>= f) := by
  cases ho : m.outcome with
  | error e =>
    rw [bind_of_error ho]
    cases hm with
    | values hvalues hown =>
      refine .values hvalues ?_
      rintro _ ⟨⟩
      exact hown e ho
    | refusal hevents hbefore hcall he =>
      obtain rfl := Except.error.inj (ho.symm.trans he)
      exact .refusal hevents hbefore hcall rfl
  | ok a =>
    rw [bind_of_ok ho]
    cases hm with
    | refusal _ _ _ he =>
      rw [ho] at he
      cases he
    | values hvalues _ =>
      cases hf a ho with
      | values hlater hown => exact .values (List.forall_mem_append.mpr ⟨hvalues, hlater⟩) hown
      | @refusal before call e hevents hbefore hcall he =>
        have hsplit : m.events ++ (f a).events = (m.events ++ before) ++ [call] := by
          rw [hevents, List.append_assoc]
        exact .refusal hsplit (List.forall_mem_append.mpr ⟨hvalues, hbefore⟩) hcall he

theorem Answered.error_cases {t : Traced Call α} (h : Answered r t) {e : Error}
    (he : t.outcome = .error e) :
    e.isOwn = true ∨ ∃ call ∈ t.events, r.answer? call = some (.error e) := by
  cases h with
  | values _ hown => exact .inl (hown e he)
  | @refusal before call refused hevents _ hanswer houtcome =>
    obtain rfl : e = refused := Except.error.inj (he.symm.trans houtcome)
    refine .inr ⟨call, ?_, hanswer⟩
    rw [hevents]
    exact List.mem_append_right before List.mem_cons_self

theorem Answered.last_of_refused {t : Traced Call α} (h : Answered r t) {before after : List Call}
    {call : Call} {e : Error} (hevents : t.events = before ++ call :: after)
    (hcall : r.answer? call = some (.error e)) : after = [] ∧ t.outcome = .error e := by
  have hrefused : ¬r.Accepts call := by
    rintro ⟨v, hv⟩
    cases hcall.symm.trans hv
  cases h with
  | values hvalues _ =>
    rw [hevents] at hvalues
    exact absurd (hvalues call (List.mem_append_right before List.mem_cons_self)) hrefused
  | @refusal accepted last e' hlast haccepted hanswer houtcome =>
    rw [hevents] at hlast
    cases List.eq_nil_or_concat after with
    | inl hnil =>
      subst hnil
      obtain ⟨-, heq⟩ := List.append_inj' hlast rfl
      obtain rfl : call = last := List.head_eq_of_cons_eq heq
      obtain rfl : e = e' := by simpa [hcall] using hanswer
      exact ⟨rfl, houtcome⟩
    | inr hlater =>
      obtain ⟨rest, other, rfl⟩ := hlater
      have hsplit : (before ++ call :: rest) ++ [other] = accepted ++ [last] := by
        rw [← hlast, List.append_assoc, List.cons_append, List.concat_eq_append]
      obtain ⟨rfl, -⟩ := List.append_inj' hsplit rfl
      exact absurd (haccepted call (List.mem_append_right before List.mem_cons_self)) hrefused

theorem Answered.exists_answer {t : Traced Call α} (h : Answered r t) {call : Call}
    (hcall : call ∈ t.events) : ∃ answer, r.answer? call = some answer := by
  cases h with
  | values hvalues _ =>
    obtain ⟨v, hv⟩ := hvalues call hcall
    exact ⟨.ok v, hv⟩
  | @refusal accepted last e hlast haccepted hanswer _ =>
    rw [hlast] at hcall
    cases List.mem_append.mp hcall with
    | inl hearlier =>
      obtain ⟨v, hv⟩ := haccepted call hearlier
      exact ⟨.ok v, hv⟩
    | inr hlast =>
      obtain rfl := List.mem_singleton.mp hlast
      exact ⟨.error e, hanswer⟩

theorem orderly_done (a : α) : Orderly r (done a) where
  written := nofun
  answered := .values nofun nofun

theorem orderly_ofExcept {x : Except Error α} (h : FailsWith (·.isOwn = true) x) :
    Orderly r (ofExcept x) where
  written := nofun
  answered := .values nofun h

theorem orderly_fail {e : Error} (h : e.isOwn = true) : Orderly r (fail e : Traced Call α) := by
  refine orderly_ofExcept (x := .error e) ?_
  rintro _ ⟨⟩
  exact h

theorem orderly_call {call : Call} {answer : Except Error Value} (hw : call.AsWritten)
    (h : r.answer? call = some answer) : Orderly r (emit call >>= fun _ => ofExcept answer) where
  written := List.forall_mem_singleton.mpr hw
  answered := by
    cases answer with
    | ok v => exact .values (List.forall_mem_singleton.mpr ⟨v, h⟩) nofun
    | error e =>
      have hevents : (emit call >>= fun _ => ofExcept (.error e : Except Error Value)).events =
          [] ++ [call] := rfl
      exact .refusal hevents nofun h rfl

theorem Orderly.bind {m : Traced Call α} {f : α → Traced Call β} (hm : Orderly r m)
    (hf : ∀ a, m.outcome = .ok a → Orderly r (f a)) : Orderly r (m >>= f) where
  written := by
    cases ho : m.outcome with
    | error e =>
      rw [bind_of_error ho]
      exact hm.written
    | ok a =>
      rw [bind_of_ok ho]
      exact List.forall_mem_append.mpr ⟨hm.written, (hf a ho).written⟩
  answered := hm.answered.bind fun a ho => (hf a ho).answered

theorem orderly_all {f : α → Traced Call β} {items : List α} (h : ∀ a ∈ items, Orderly r (f a)) :
    Orderly r (all f items) := by
  induction items with
  | nil => exact orderly_done _
  | cons a rest ih =>
    obtain ⟨ha, hrest⟩ := List.forall_mem_cons.mp h
    exact ha.bind fun b _ => (ih hrest).bind fun bs _ => orderly_done _

end Traced

namespace Expr
open Traced

theorem isOwn_negated (v : Value) : FailsWith (·.isOwn = true) (negated v) := by
  refine (failsWith_negated v).mono ?_
  rintro _ ⟨kind, rfl⟩
  rfl

theorem isOwn_member (v key : Value) : FailsWith (·.isOwn = true) (v.member key) := by
  refine (v.failsWith_member key).mono ?_
  rintro _ ⟨shown, kind, rfl⟩
  rfl

section
variable {r : Registry} {context : Context} {limit levels : Nat}

theorem eq_of_literal {e : Expr} {v w : Value} (hv : e.literal? = some v)
    (hw : (evaluateWithin r context limit levels e).outcome = .ok w) : w = v :=
  (Except.ok.inj ((reaches_literal levels hv).eq_of_ok hw)).symm

theorem eq_of_literals {items : List Expr} {vs ws : List Value} (hvs : literals? items = some vs)
    (hws : (all (evaluateWithin r context limit levels) items).outcome = .ok ws) : ws = vs := by
  have hreaches : Reaches limit False (done vs) (all (evaluateWithin r context limit levels) items) :=
    reaches_literals hvs fun e _ v hv => (reaches_literal levels hv).mono False.elim
  exact (Except.ok.inj (hreaches.eq_of_ok hws)).symm

end

/-- Each node evaluates its parts, hands their values on, and calls at most one function, as its
last step. -/
theorem orderly_evaluateWithin (r : Registry) (context : Context) (limit levels : Nat) (e : Expr) :
    Orderly r (evaluateWithin r context limit levels e) := by
  induction levels generalizing e with
  | zero => exact orderly_fail rfl
  | succ levels ih =>
    cases e with
    | literal v => exact orderly_done v
    | identifier name =>
      rw [evaluateWithin]
      cases context.find? name with
      | some v => exact orderly_done v
      | none => exact orderly_fail rfl
    | member target property =>
      rw [evaluateWithin]
      cases pathValue? context (.member target property) with
      | some v => exact orderly_done v
      | none =>
        exact (ih target).bind fun v _ => (ih property).bind fun key _ =>
          orderly_ofExcept (isOwn_member v key)
    | not operand => exact (ih operand).bind fun v _ => orderly_done _
    | negate operand => exact (ih operand).bind fun v _ => orderly_ofExcept (isOwn_negated v)
    | binary token left right =>
      rw [evaluateWithin]
      cases hoperator : r.operator? token with
      | none => exact orderly_fail rfl
      | some operator =>
        obtain ⟨n, operation⟩ := operator
        refine (ih left).bind fun a _ => ?_
        cases operation with
        | function f =>
          refine (ih right).bind fun b _ => orderly_call trivial ?_
          rw [Registry.answer?, hoperator]
        | conjunction =>
          dsimp only
          split
          · exact ih right
          · exact orderly_done a
        | disjunction =>
          dsimp only
          split
          · exact orderly_done a
          · exact ih right
    | conditional test consequent alternate =>
      refine (ih test).bind fun v _ => ?_
      split
      · exact ih consequent
      · exact ih alternate
    | transform name subject arguments =>
      rw [evaluateWithin]
      cases hregistered : r.transform? name with
      | none => exact orderly_fail rfl
      | some registered =>
        refine (ih subject).bind fun v hv => ?_
        refine (orderly_all fun argument _ => ih argument).bind fun vs hvs => ?_
        have hwritten : (Call.transform name subject arguments v vs).AsWritten :=
          ⟨fun w hw => eq_of_literal hw hv, fun ws hws => eq_of_literals hws hvs⟩
        exact orderly_call hwritten (by rw [Registry.answer?, hregistered]; rfl)
    | array items => exact (orderly_all fun item _ => ih item).bind fun vs _ => orderly_done _
    | object entries =>
      refine Orderly.bind (orderly_all fun entry _ => ?_) fun fields _ => orderly_done _
      exact (ih entry.2).bind fun v _ => orderly_done _

/-- Every call is one of a registered function. An error that one answers with is what the evaluation
ends with, at once: no function is called after it. An evaluation in which none answers with an error
has no errors but its own. -/
theorem evaluate_ends_at_refusal (r : Registry) (context : Context) (limit : Nat) (e : Expr) :
    (∀ call ∈ (e.evaluate r context limit).events, ∃ answer, r.answer? call = some answer) ∧
    (∀ before call after error,
      (e.evaluate r context limit).events = before ++ call :: after →
      r.answer? call = some (.error error) →
      after = [] ∧ (e.evaluate r context limit).outcome = .error error) ∧
    ((∀ call ∈ (e.evaluate r context limit).events, ∀ error,
      r.answer? call ≠ some (.error error)) →
      ∀ error, (e.evaluate r context limit).outcome = .error error → error.isOwn = true) := by
  have hanswered : Answered r (e.evaluate r context limit) :=
    (orderly_evaluateWithin r context limit limit e).answered
  refine ⟨fun call hcall => hanswered.exists_answer hcall, ?_, ?_⟩
  · intro before call after error hevents hcall
    exact hanswered.last_of_refused hevents hcall
  · intro hnone error herror
    cases hanswered.error_cases herror with
    | inl hown => exact hown
    | inr hrefused =>
      obtain ⟨call, hcall, hanswer⟩ := hrefused
      exact absurd hanswer (hnone call hcall error)

/-- A transform from outside refuses its subject in its own words, so the `count` behind it is not
called. Where it accepts its subject, the identifier behind it is what fails. -/
theorem evaluate_ends_at_double :
    let doubled (subject : Expr) : Expr := .transform "double" subject []
    let text : Expr := .literal (.string "a")
    let x : Value := .number 1
    let e : Expr := .array [doubled text, .transform "count" (.array []) []]
    let e' : Expr := .array [doubled (.literal x), .identifier "x"]
    (e.evaluate .doubling [] 3).events = [.transform "double" text [] (.string "a") []] ∧
      (e.evaluate .doubling [] 3).outcome =
        .error (.mismatch (.reason "double expects a number")) ∧
      (e'.evaluate .doubling [] 3).events = [.transform "double" (.literal x) [] x []] ∧
      (e'.evaluate .doubling [] 3).outcome = .error (.undefinedIdentifier "x") ∧
      (Error.undefinedIdentifier "x").isOwn = true := by
  intro doubled text x e e'
  have hrefused := (evaluate_ends_at_refusal .doubling [] 3 e).2.1 [] _ [] _ rfl rfl
  have hown := (evaluate_ends_at_refusal .doubling [] 3 e').2.2 ?_ (.undefinedIdentifier "x") rfl
  · exact ⟨rfl, hrefused.2, rfl, rfl, hown⟩
  · intro call hcall error herror
    obtain rfl := List.mem_singleton.mp hcall
    cases herror

end Expr
end PipeExpr
