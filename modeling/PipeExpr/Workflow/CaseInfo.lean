import PipeExpr.Value.Basic

/-!
What an expression in a workflow knows about the case at hand.
-/
namespace PipeExpr

structure CaseInfo where
  form : Option String := none
  workflow : Option String := none
  previousTask : Option String := none
deriving Repr, DecidableEq

namespace CaseInfo

def slug : Option String → Value
  | some s => .string s
  | none => .null

def toValue (info : CaseInfo) : Value :=
  .object
    [("case", .object [("form", slug info.form), ("workflow", slug info.workflow)]),
     ("prev_work_item", .object [("task", slug info.previousTask)])]

def context (info : CaseInfo) : Table Value := [("info", info.toValue)]

end CaseInfo
end PipeExpr
