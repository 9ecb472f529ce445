import PipeExpr.Expr.Evaluation
import PipeExpr.Proofs.Expr.Parts

/-!
Evaluation node by node. What two evaluations have in common at the parts of a node they have in common
at the node, if they look up the same there.
-/
namespace PipeExpr.Expr
open Traced

/-- The value of a node, given an evaluation of its parts. -/
def step (registry : Registry) (context : Context) (value : Expr → Traced Call Value) :
    Expr → Traced Call Value
  | .literal v => done v
  | .identifier name =>
    match context.find? name with
    | some v => done v
    | none => fail (.undefinedIdentifier name)
  | .member target property =>
    match pathValue? context (.member target property) with
    | some v => done v
    | none => do
      let v ← value target
      let key ← value property
      ofExcept (v.member key)
  | .not operand => do
    let v ← value operand
    done (.boolean !v.truthy)
  | .negate operand => do
    let v ← value operand
    ofExcept (negated v)
  | .binary token left right =>
    match registry.operator? token with
    | none => fail (.unknownOperator token)
    | some operator => do
      let a ← value left
      match operator.operation with
      | .conjunction => if a.truthy then value right else done a
      | .disjunction => if a.truthy then done a else value right
      | .function f =>
        let b ← value right
        emit (.operator token a b)
        ofExcept (f a b)
  | .conditional test consequent alternate => do
    let v ← value test
    if v.truthy then value consequent else value alternate
  | .transform name subject arguments =>
    match registry.transform? name with
    | none => fail (.unknownTransform name)
    | some registered => do
      let v ← value subject
      let vs ← all value arguments
      emit (.transform name subject arguments v vs)
      ofExcept (registered.transform.apply v vs)
  | .array items => do
    let vs ← all value items
    done (.array vs)
  | .object entries => do
    let fields ← all (fun entry => do
      let v ← value entry.2
      done (entry.1, v)) entries
    done (.object (Table.ofList fields))

theorem evaluateWithin_succ (registry : Registry) (context : Context) (limit levels : Nat)
    (e : Expr) : evaluateWithin registry context limit (levels + 1) e =
      step registry context (evaluateWithin registry context limit levels) e := by
  cases e <;> rfl

/-- A node looks up the same in two registries and contexts. -/
structure LooksUpAlike (r r' : Registry) (context context' : Context) (e : Expr) : Prop where
  path : pathValue? context e = pathValue? context' e
  operator : ∀ token left right, e = .binary token left right →
    r.operator? token = r'.operator? token
  transform : ∀ name subject arguments, e = .transform name subject arguments →
    r.transform? name = r'.transform? name

theorem LooksUpAlike.refl (r : Registry) (context : Context) (e : Expr) :
    LooksUpAlike r r context context e := ⟨rfl, fun _ _ _ _ => rfl, fun _ _ _ _ => rfl⟩

/-- Nodes are in a relation if their parts are. -/
theorem step_related {R : (α : Type) → Traced Call α → Traced Call α → Prop} (hR : Stepwise R)
    {r r' : Registry} {context context' : Context} {value value' : Expr → Traced Call Value}
    {e : Expr} (hlook : LooksUpAlike r r' context context' e)
    (h : ∀ part ∈ e.parts, R Value (value part) (value' part)) :
    R Value (step r context value e) (step r' context' value' e) := by
  obtain ⟨hpath, hoperator, htransform⟩ := hlook
  cases e with
  | literal v => exact hR.refl _
  | identifier name =>
    have hfind : context.find? name = context'.find? name := hpath
    rw [step, step, hfind]
    exact hR.refl _
  | member target property =>
    have htarget := h target (by simp [parts])
    have hproperty := h property (by simp [parts])
    rw [step, step, hpath]
    cases pathValue? context' (.member target property) with
    | some v => exact hR.refl _
    | none => exact hR.bind htarget fun v => hR.bind hproperty fun key => hR.refl _
  | not operand => exact hR.bind (h operand (by simp [parts])) fun v => hR.refl _
  | negate operand => exact hR.bind (h operand (by simp [parts])) fun v => hR.refl _
  | binary token left right =>
    have hleft := h left (by simp [parts])
    have hright := h right (by simp [parts])
    rw [step, step, hoperator token left right rfl]
    cases r'.operator? token with
    | none => exact hR.refl _
    | some operator =>
      refine hR.bind hleft fun a => ?_
      cases operator.operation with
      | function f => exact hR.bind hright fun b => hR.refl _
      | conjunction =>
        dsimp only
        split
        · exact hright
        · exact hR.refl _
      | disjunction =>
        dsimp only
        split
        · exact hR.refl _
        · exact hright
  | conditional test consequent alternate =>
    refine hR.bind (h test (by simp [parts])) fun v => ?_
    split
    · exact h consequent (by simp [parts])
    · exact h alternate (by simp [parts])
  | transform name subject arguments =>
    have hsubject := h subject (by simp [parts])
    have harguments := hR.all fun argument (hmem : argument ∈ arguments) =>
      h argument (by simp [parts, hmem])
    rw [step, step, htransform name subject arguments rfl]
    cases r'.transform? name with
    | none => exact hR.refl _
    | some registered =>
      exact hR.bind hsubject fun v => hR.bind harguments fun vs => hR.refl _
  | array items => exact hR.bind (hR.all h) fun vs => hR.refl _
  | object entries =>
    refine hR.bind (hR.all fun entry hmem => ?_) fun fields => hR.refl _
    exact hR.bind (h entry.2 (List.mem_map_of_mem hmem)) fun v => hR.refl _

end PipeExpr.Expr
