import PipeExpr.Proofs.Expr.Steps
import PipeExpr.Proofs.Registry.Conduct

/-!
Where the errors of an evaluation come from. Each of them is raised at one of the nodes, for a reason that
can be seen there, or it is what a registered function answered, and then no call follows.
-/
namespace PipeExpr

/-- What a node raises by itself. -/
inductive Expr.Raises (r : Registry) (context : Context) (limit : Nat) : Expr → Error → Prop where
  | deep (e : Expr) : Raises r context limit e (.depthExceeded limit)
  | identifier {name : String} : context.find? name = none →
      Raises r context limit (.identifier name) (.undefinedIdentifier name)
  | property (target property : Expr) (shown : String) (kind : Kind) :
      Raises r context limit (.member target property) (.mismatch (.property shown kind))
  | negation (operand : Expr) (kind : Kind) :
      Raises r context limit (.negate operand) (.mismatch (.negation kind))
  | operator {token : String} (left right : Expr) : r.operator? token = none →
      Raises r context limit (.binary token left right) (.unknownOperator token)
  | transform {name : String} (subject : Expr) (arguments : List Expr) : r.transform? name = none →
      Raises r context limit (.transform name subject arguments) (.unknownTransform name)

namespace Traced
variable {r : Registry} {P Q : Error → Prop} {α β : Type}

/-- The last call was answered with the error. -/
def Refused (r : Registry) (calls : List Call) (e : Error) : Prop :=
  ∃ before call, calls = before ++ [call] ∧ r.answer? call = some (.error e)

/-- An error is of a kind, or the last call was answered with it. -/
def Sourced (r : Registry) (P : Error → Prop) (t : Traced Call α) : Prop :=
  ∀ e, t.outcome = .error e → P e ∨ Refused r t.events e

theorem Sourced.mono {t : Traced Call α} (h : Sourced r P t) (hpq : ∀ e, P e → Q e) :
    Sourced r Q t :=
  fun e he => (h e he).imp_left (hpq e)

theorem sourced_done (a : α) : Sourced r P (done a) := by
  intro e he
  cases he

theorem sourced_ofExcept {x : Except Error α} (h : FailsWith P x) : Sourced r P (ofExcept x) :=
  fun e he => .inl (h e he)

theorem sourced_fail {e : Error} (h : P e) : Sourced r P (fail e : Traced Call α) :=
  sourced_ofExcept (failsWith_error h)

theorem sourced_call {call : Call} {answer : Except Error Value} (h : r.answer? call = some answer) :
    Sourced r P (emit call >>= fun _ => ofExcept answer) := by
  intro e he
  cases answer with
  | ok v => cases he
  | error e' =>
    obtain rfl := Except.error.inj he
    exact .inr ⟨[], call, rfl, h⟩

theorem Sourced.bind {m : Traced Call α} {f : α → Traced Call β} (hm : Sourced r P m)
    (hf : ∀ a, Sourced r P (f a)) : Sourced r P (m >>= f) := by
  intro e he
  cases ho : m.outcome with
  | error e' =>
    rw [bind_of_error ho] at he ⊢
    obtain rfl := Except.error.inj he
    exact hm e' ho
  | ok a =>
    rw [bind_of_ok ho] at he ⊢
    refine (hf a e he).imp_right ?_
    rintro ⟨before, call, hevents, hcall⟩
    exact ⟨m.events ++ before, call, by rw [hevents, List.append_assoc], hcall⟩

theorem sourced_all {f : α → Traced Call β} {items : List α} (h : ∀ a ∈ items, Sourced r P (f a)) :
    Sourced r P (all f items) := by
  induction items with
  | nil => exact sourced_done _
  | cons a rest ih =>
    obtain ⟨ha, hrest⟩ := List.forall_mem_cons.mp h
    exact ha.bind fun b => (ih hrest).bind fun bs => sourced_done _

end Traced

namespace Expr
open Traced
variable {r : Registry} {context : Context} {limit : Nat}

theorem step_sourced {P : Error → Prop} {value : Expr → Traced Call Value} {e : Expr}
    (hparts : ∀ part ∈ e.parts, Sourced r P (value part))
    (hraises : ∀ err, e.Raises r context limit err → P err) :
    Sourced r P (step r context value e) := by
  cases e with
  | literal v => exact sourced_done v
  | identifier name =>
    rw [step]
    cases hfind : context.find? name with
    | some v => exact sourced_done v
    | none => exact sourced_fail (hraises _ (.identifier hfind))
  | member target property =>
    have htarget := hparts target (by simp [parts])
    have hproperty := hparts property (by simp [parts])
    rw [step]
    cases pathValue? context (.member target property) with
    | some v => exact sourced_done v
    | none =>
      refine htarget.bind fun v => hproperty.bind fun key => sourced_ofExcept ?_
      refine (v.failsWith_member key).mono ?_
      rintro _ ⟨shown, kind, rfl⟩
      exact hraises _ (.property target property shown kind)
  | not operand => exact (hparts operand (by simp [parts])).bind fun v => sourced_done _
  | negate operand =>
    refine (hparts operand (by simp [parts])).bind fun v => sourced_ofExcept ?_
    refine (failsWith_negated v).mono ?_
    rintro _ ⟨kind, rfl⟩
    exact hraises _ (.negation operand kind)
  | binary token left right =>
    have hleft := hparts left (by simp [parts])
    have hright := hparts right (by simp [parts])
    rw [step]
    cases hoperator : r.operator? token with
    | none => exact sourced_fail (hraises _ (.operator left right hoperator))
    | some operator =>
      obtain ⟨n, operation⟩ := operator
      refine hleft.bind fun a => ?_
      cases operation with
      | function f =>
        refine hright.bind fun b => sourced_call ?_
        rw [Registry.answer?, hoperator]
      | conjunction =>
        dsimp only
        split
        · exact hright
        · exact sourced_done a
      | disjunction =>
        dsimp only
        split
        · exact sourced_done a
        · exact hright
  | conditional test consequent alternate =>
    refine (hparts test (by simp [parts])).bind fun v => ?_
    split
    · exact hparts consequent (by simp [parts])
    · exact hparts alternate (by simp [parts])
  | transform name subject arguments =>
    have hsubject := hparts subject (by simp [parts])
    have harguments := sourced_all fun argument (hmem : argument ∈ arguments) =>
      hparts argument (by simp [parts, hmem])
    rw [step]
    cases hregistered : r.transform? name with
    | none => exact sourced_fail (hraises _ (.transform subject arguments hregistered))
    | some registered =>
      refine hsubject.bind fun v => harguments.bind fun vs => sourced_call ?_
      rw [Registry.answer?, hregistered]
      rfl
  | array items => exact (sourced_all hparts).bind fun vs => sourced_done _
  | object entries =>
    refine Sourced.bind (sourced_all fun entry hmem => ?_) fun fields => sourced_done _
    exact (hparts entry.2 (List.mem_map_of_mem hmem)).bind fun v => sourced_done _

theorem sourced_evaluateWithin (r : Registry) (context : Context) (limit levels : Nat) (e : Expr) :
    Sourced r (fun err => ∃ node ∈ e.nodes, node.Raises r context limit err)
      (evaluateWithin r context limit levels e) := by
  induction levels generalizing e with
  | zero => exact sourced_fail ⟨e, self_mem_nodes e, .deep e⟩
  | succ levels ih =>
    rw [evaluateWithin_succ]
    refine step_sourced (fun part hpart => (ih part).mono ?_) fun err herr =>
      ⟨e, self_mem_nodes e, herr⟩
    rintro err ⟨node, hnode, herr⟩
    exact ⟨node, nodes_subset_of_part hpart hnode, herr⟩

/-- An evaluation reports an operator as unknown where a node has it and it is not registered, or where a
registered function reports it. -/
theorem unknownOperator_source {e : Expr} {token : String}
    (h : (e.evaluate r context limit).outcome = .error (.unknownOperator token)) :
    (∃ left right, .binary token left right ∈ e.nodes ∧ r.operator? token = none) ∨
      Refused r (e.evaluate r context limit).events (.unknownOperator token) := by
  cases sourced_evaluateWithin r context limit limit e _ h with
  | inr hrefused => exact .inr hrefused
  | inl hraised =>
    obtain ⟨node, hnode, hraises⟩ := hraised
    cases hraises with
    | operator left right hnone => exact .inl ⟨left, right, hnode, hnone⟩

end Expr
end PipeExpr
