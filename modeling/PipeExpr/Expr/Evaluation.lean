import PipeExpr.Registry.Basic
import PipeExpr.Traced
import PipeExpr.Value.Member

/-!
The value of an expression in a context. The calls of registered functions are traced in order; an
error ends the evaluation and the trace. Each node lies one level below its parent, and the
evaluation does not go below the last level.
-/
namespace PipeExpr

abbrev Context := Table Value

/-- A call of a registered function. That of a transform also tells where it stands: its subject and
arguments as written. -/
inductive Call where
  | transform (name : String) (subjectAt : Expr) (argumentsAt : List Expr) (subject : Value)
    (arguments : List Value)
  | operator (token : String) (left right : Value)

namespace Expr
open Traced (done fail ofExcept emit)

/-- The value of an identifier, or of a member that literal keys lead to from one. Nothing is
evaluated for it, so it costs no levels. -/
def pathValue? (context : Context) : Expr → Option Value
  | .identifier name => context.find? name
  | .member target (.literal key) => (pathValue? context target).bind (·.property? key)
  | _ => none

def negated : Value → Except Error Value
  | .number x => .ok (.number (-x))
  | v => .error (.mismatch (.negation v.kind))

/-- The value of an expression, at most `levels` nodes deep; `limit` is the depth that an error
reports. The right operand of a conjunction or a disjunction is evaluated only if the left one does
not decide. -/
def evaluateWithin (registry : Registry) (context : Context) (limit : Nat) :
    Nat → Expr → Traced Call Value
  | 0, _ => fail (.depthExceeded limit)
  | _ + 1, .literal v => done v
  | _ + 1, .identifier name =>
    match context.find? name with
    | some v => done v
    | none => fail (.undefinedIdentifier name)
  | levels + 1, .member target property =>
    match pathValue? context (.member target property) with
    | some v => done v
    | none => do
      let v ← evaluateWithin registry context limit levels target
      let key ← evaluateWithin registry context limit levels property
      ofExcept (v.member key)
  | levels + 1, .not operand => do
    let v ← evaluateWithin registry context limit levels operand
    done (.boolean !v.truthy)
  | levels + 1, .negate operand => do
    let v ← evaluateWithin registry context limit levels operand
    ofExcept (negated v)
  | levels + 1, .binary token left right =>
    match registry.operator? token with
    | none => fail (.unknownOperator token)
    | some operator => do
      let a ← evaluateWithin registry context limit levels left
      match operator.operation with
      | .conjunction =>
        if a.truthy then evaluateWithin registry context limit levels right else done a
      | .disjunction =>
        if a.truthy then done a else evaluateWithin registry context limit levels right
      | .function f =>
        let b ← evaluateWithin registry context limit levels right
        emit (.operator token a b)
        ofExcept (f a b)
  | levels + 1, .conditional test consequent alternate => do
    let v ← evaluateWithin registry context limit levels test
    if v.truthy then evaluateWithin registry context limit levels consequent
    else evaluateWithin registry context limit levels alternate
  | levels + 1, .transform name subject arguments =>
    match registry.transform? name with
    | none => fail (.unknownTransform name)
    | some registered => do
      let v ← evaluateWithin registry context limit levels subject
      let vs ← Traced.all (evaluateWithin registry context limit levels) arguments
      emit (.transform name subject arguments v vs)
      ofExcept (registered.transform.apply v vs)
  | levels + 1, .array items => do
    let vs ← Traced.all (evaluateWithin registry context limit levels) items
    done (.array vs)
  | levels + 1, .object entries => do
    let fields ← Traced.all (fun entry => do
      let v ← evaluateWithin registry context limit levels entry.2
      done (entry.1, v)) entries
    done (.object (Table.ofList fields))

def evaluate (registry : Registry) (context : Context) (limit : Nat) (e : Expr) :
    Traced Call Value :=
  evaluateWithin registry context limit limit e

end Expr

def Registry.records (registry : Registry) : Call → List LogRecord
  | .operator .. => []
  | .transform name _ _ subject arguments =>
    ⟨.trace, "applying transform " ++ Token.quoted name ++ " to " ++ subject.text⟩ ::
      ((registry.transform? name).bind (·.transform.note subject arguments)).toList

end PipeExpr
