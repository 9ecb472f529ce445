import PipeExpr.Proofs.Expr.Steps
import PipeExpr.Proofs.Registry.Conduct

/-!
The short cut that an evaluation takes along a path of literal keys. `evaluatePlainly` evaluates
without it; the two differ only where the plain evaluation runs into the limit of depth.
-/
namespace PipeExpr

theorem Value.member_of_property? {target key v : Value} (h : target.property? key = some v) :
    target.member key = .ok v := by
  unfold property? at h
  split at h
  · rw [member, h]
    rfl
  · rw [member, h]
    rfl
  · cases h

namespace Expr
open Traced

/-- The value of an expression, every member being asked of the value of its target. Otherwise it
goes like `evaluateWithin`. -/
def evaluatePlainlyWithin (registry : Registry) (context : Context) (limit : Nat) :
    Nat → Expr → Traced Call Value
  | 0, _ => fail (.depthExceeded limit)
  | _ + 1, .literal v => done v
  | _ + 1, .identifier name =>
    match context.find? name with
    | some v => done v
    | none => fail (.undefinedIdentifier name)
  | levels + 1, .member target property => do
    let v ← evaluatePlainlyWithin registry context limit levels target
    let key ← evaluatePlainlyWithin registry context limit levels property
    ofExcept (v.member key)
  | levels + 1, .not operand => do
    let v ← evaluatePlainlyWithin registry context limit levels operand
    done (.boolean !v.truthy)
  | levels + 1, .negate operand => do
    let v ← evaluatePlainlyWithin registry context limit levels operand
    ofExcept (negated v)
  | levels + 1, .binary token left right =>
    match registry.operator? token with
    | none => fail (.unknownOperator token)
    | some operator => do
      let a ← evaluatePlainlyWithin registry context limit levels left
      match operator.operation with
      | .conjunction =>
        if a.truthy then evaluatePlainlyWithin registry context limit levels right else done a
      | .disjunction =>
        if a.truthy then done a else evaluatePlainlyWithin registry context limit levels right
      | .function f =>
        let b ← evaluatePlainlyWithin registry context limit levels right
        emit (.operator token a b)
        ofExcept (f a b)
  | levels + 1, .conditional test consequent alternate => do
    let v ← evaluatePlainlyWithin registry context limit levels test
    if v.truthy then evaluatePlainlyWithin registry context limit levels consequent
    else evaluatePlainlyWithin registry context limit levels alternate
  | levels + 1, .transform name subject arguments =>
    match registry.transform? name with
    | none => fail (.unknownTransform name)
    | some registered => do
      let v ← evaluatePlainlyWithin registry context limit levels subject
      let vs ← Traced.all (evaluatePlainlyWithin registry context limit levels) arguments
      emit (.transform name subject arguments v vs)
      ofExcept (registered.transform.apply v vs)
  | levels + 1, .array items => do
    let vs ← Traced.all (evaluatePlainlyWithin registry context limit levels) items
    done (.array vs)
  | levels + 1, .object entries => do
    let fields ← Traced.all (fun entry => do
      let v ← evaluatePlainlyWithin registry context limit levels entry.2
      done (entry.1, v)) entries
    done (.object (Table.ofList fields))

def evaluatePlainly (registry : Registry) (context : Context) (limit : Nat) (e : Expr) :
    Traced Call Value :=
  evaluatePlainlyWithin registry context limit limit e

variable (registry : Registry) {context : Context} (limit : Nat)

theorem reaches_plain_literal (context : Context) (levels : Nat) (v : Value) :
    Reaches limit ((literal v).height ≤ levels) (done v)
      (evaluatePlainlyWithin registry context limit levels (.literal v)) := by
  cases levels with
  | zero => exact reaches_fail (Nat.not_succ_le_zero 0)
  | succ levels => exact .refl _

theorem reaches_pathValue? (levels : Nat) {e : Expr} {v : Value}
    (h : pathValue? context e = some v) :
    Reaches limit (e.height ≤ levels) (done v)
      (evaluatePlainlyWithin registry context limit levels e) := by
  induction levels generalizing e v with
  | zero => exact reaches_fail (Nat.not_le_of_lt e.height_pos)
  | succ levels ih =>
    cases e with
    | identifier name =>
      have hfind : context.find? name = some v := h
      rw [evaluatePlainlyWithin, hfind]
      exact .refl _
    | member target property =>
      cases property with
      | literal key =>
        obtain ⟨t, ht, hv⟩ := Option.bind_eq_some_iff.mp h
        have hlevels : (member target (literal key)).height ≤ levels + 1 →
            target.height ≤ levels ∧ (literal key).height ≤ levels := by
          simp only [height]
          omega
        have hkey := (reaches_plain_literal registry limit context levels key).mono
          fun hle => (hlevels hle).2
        have htarget := (ih ht).mono fun hle => (hlevels hle).1
        have hsteps := htarget.bind (f := fun t => done key >>= fun k => ofExcept (t.member k))
          fun t => hkey.bind fun k => .refl _
        have hideal : (done t >>= fun t => done key >>= fun k => ofExcept (t.member k)) =
            (done v : Traced Call Value) := by
          change ofExcept (t.member key) = done v
          rw [Value.member_of_property? hv]
          rfl
        rw [hideal] at hsteps
        exact hsteps
      | _ => cases h
    | _ => cases h

theorem evaluatePlainlyWithin_succ (context : Context) (levels : Nat) {e : Expr}
    (h : ∀ target property, e ≠ .member target property) :
    evaluatePlainlyWithin registry context limit (levels + 1) e =
      step registry context (evaluatePlainlyWithin registry context limit levels) e := by
  cases e with
  | member target property => exact absurd rfl (h target property)
  | _ => rfl

/-- The plain evaluation does what the evaluation with the short cut does, unless it runs into the
limit. The short cut is taken below any node, so this is an induction on the whole expression. -/
theorem reaches_evaluatePlainlyWithin (context : Context) (levels : Nat) (e : Expr) :
    Reaches limit (e.height ≤ levels) (evaluateWithin registry context limit levels e)
      (evaluatePlainlyWithin registry context limit levels e) := by
  induction levels generalizing e with
  | zero => exact .refl _
  | succ levels ih =>
    have hpart : ∀ part ∈ e.parts, Reaches limit (e.height ≤ levels + 1)
        (evaluateWithin registry context limit levels part)
        (evaluatePlainlyWithin registry context limit levels part) :=
      fun part hpart => (ih part).mono fun hle => height_le_succ.mp hle part hpart
    cases e with
    | member target property =>
      rw [evaluateWithin]
      cases hpath : pathValue? context (.member target property) with
      | some v => exact reaches_pathValue? registry limit (levels + 1) hpath
      | none =>
        exact (hpart target (by simp [parts])).bind fun v =>
          (hpart property (by simp [parts])).bind fun key => .refl _
    | _ =>
      rw [evaluateWithin_succ, evaluatePlainlyWithin_succ]
      · exact step_related stepwise_reaches (.refl registry context _) hpart
      · intro target property h
        cases h

/-- The short cut changes neither the value nor the error nor the calls of an evaluation, unless the
evaluation without it runs into the limit; and where the limit is as high as the expression, it
changes nothing at all. -/
theorem evaluate_eq_evaluatePlainly (registry : Registry) (context : Context) (limit : Nat)
    (e : Expr) :
    ((e.evaluatePlainly registry context limit).outcome ≠ .error (.depthExceeded limit) →
      e.evaluate registry context limit = e.evaluatePlainly registry context limit) ∧
    (e.height ≤ limit →
      e.evaluate registry context limit = e.evaluatePlainly registry context limit) := by
  have hreaches := reaches_evaluatePlainlyWithin registry limit context limit e
  constructor
  · intro hplain
    exact (hreaches.eq_of_outcome hplain).symm
  · intro hheight
    exact (hreaches.eq_of_enough hheight).symm

/-- A path that leads out of what is there: its front is found at once, and the rest is null. A transform
from outside refuses that in its own words, with the short cut as without. -/
theorem evaluate_missing_field :
    let front : Expr := .member (.identifier "a") (.literal (.string "b"))
    let e : Expr := .member (.member front (.literal (.string "c"))) (.literal (.string "d"))
    let doubled : Expr := .transform "double" e []
    let context : Context := [("a", .object [("b", .object [])])]
    pathValue? context front = some (.object []) ∧ pathValue? context e = none ∧ e.height = 4 ∧
      e.evaluate .doubling context 4 = e.evaluatePlainly .doubling context 4 ∧
      (doubled.evaluatePlainly .doubling context 5).outcome =
        .error (.mismatch (.reason "double expects a number")) ∧
      doubled.evaluate .doubling context 5 = doubled.evaluatePlainly .doubling context 5 := by
  intro front e doubled context
  have hheight : e.height = 4 := rfl
  have hrefused : (doubled.evaluatePlainly .doubling context 5).outcome =
      .error (.mismatch (.reason "double expects a number")) := rfl
  have hsame := (evaluate_eq_evaluatePlainly .doubling context 4 e).2 (Nat.le_of_eq hheight)
  have hagree := (evaluate_eq_evaluatePlainly .doubling context 5 doubled).1 ?_
  · exact ⟨rfl, rfl, hheight, hsame, hrefused, hagree⟩
  · rw [hrefused]
    exact nofun

/-- On the last level only the short cut is left. -/
example :
    let e : Expr := .member (.identifier "a") (.literal (.string "b"))
    let context : Context := [("a", .object [("b", .null)])]
    (e.evaluate .empty context 1).outcome = .ok .null ∧
      (e.evaluatePlainly .empty context 1).outcome = .error (.depthExceeded 1) := ⟨rfl, rfl⟩

end Expr
end PipeExpr
