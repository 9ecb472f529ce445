import PipeExpr.Expr.Basic
import PipeExpr.Traced

/-!
A walk over an expression without evaluating it: its operations, transforms and identifiers in the
order in which they are written, each one before its parts.
-/
namespace PipeExpr

inductive Visit where
  | transform (name : String) (subject : Expr) (arguments : List Expr)
  | binary (operator : String)
  | identifier (name : String)

namespace Expr
open Traced (done fail emit each)

/-- Walks over an expression at most `levels` nodes deep; `limit` is the depth that an error
reports. -/
def walkWithin (limit : Nat) : Nat → Expr → Traced Visit Unit
  | 0, _ => fail (.depthExceeded limit)
  | _ + 1, .literal _ => done ()
  | _ + 1, .identifier name => emit (.identifier name)
  | levels + 1, .member target property => do
    walkWithin limit levels target
    walkWithin limit levels property
  | levels + 1, .not operand => walkWithin limit levels operand
  | levels + 1, .negate operand => walkWithin limit levels operand
  | levels + 1, .binary operator left right => do
    emit (.binary operator)
    walkWithin limit levels left
    walkWithin limit levels right
  | levels + 1, .conditional test consequent alternate => do
    walkWithin limit levels test
    walkWithin limit levels consequent
    walkWithin limit levels alternate
  | levels + 1, .transform name subject arguments => do
    emit (.transform name subject arguments)
    walkWithin limit levels subject
    each (walkWithin limit levels) arguments
  | levels + 1, .array items => each (walkWithin limit levels) items
  | levels + 1, .object entries => each (fun entry => walkWithin limit levels entry.2) entries

def walk (limit : Nat) (e : Expr) : Traced Visit Unit := walkWithin limit limit e

end Expr
end PipeExpr
