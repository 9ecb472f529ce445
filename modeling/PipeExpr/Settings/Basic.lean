import PipeExpr.Error

/-!
The settings of an engine: how deep expressions may be nested, and whether parsed ones are kept.
-/
namespace PipeExpr

structure Settings where
  maxDepth : Nat := 128
  cache : Bool := true
deriving Repr, DecidableEq

namespace Settings

/-- Settings from outside allow at least one level. -/
def checked (s : Settings) : Except Error Settings :=
  if s.maxDepth = 0 then .error (.setting .depthZero) else .ok s

end Settings
end PipeExpr
