import PipeExpr.Operation.Arithmetic
import PipeExpr.Operation.Comparison
import PipeExpr.Transform.Builtin

/-!
The registries to start from: the standard operators alone, and with the standard transforms.
-/
namespace PipeExpr.Registry
open Operation

def standardOperators : List (String × Nat × Operation) :=
  [("||", 10, .disjunction),
   ("&&", 10, .conjunction),
   ("==", 20, .function equal),
   ("!=", 20, .function notEqual),
   ("<", 20, .function less),
   ("<=", 20, .function lessEqual),
   (">", 20, .function greater),
   (">=", 20, .function greaterEqual),
   ("in", 20, .function contains),
   ("+", 30, .function add),
   ("-", 30, .function subtract),
   ("*", 40, .function multiply),
   ("/", 40, .function divide),
   ("//", 40, .function floorDivide),
   ("%", 40, .function modulo),
   ("^", 50, .function power)]

def standardTransforms : List (String × Transform) :=
  [("debug", .debug),
   ("min", .silent Transform.min),
   ("max", .silent Transform.max),
   ("sum", .silent Transform.sum),
   ("round", .silent Transform.round),
   ("ceil", .silent Transform.ceil),
   ("floor", .silent Transform.floor),
   ("count", .silent Transform.count),
   ("stringify", .silent Transform.stringify)]

def operatorsOnly : Registry :=
  standardOperators.foldl (fun r o => r.insertOperator o.1 o.2.1 o.2.2) .empty

def standard : Registry :=
  standardTransforms.foldl (fun r t => r.insertTransform t.1 t.2 none) operatorsOnly

end PipeExpr.Registry
