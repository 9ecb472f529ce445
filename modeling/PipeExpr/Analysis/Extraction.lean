import PipeExpr.Expr.Walk

/-!
What transforms are applied to, as far as it is written out literally.
-/
namespace PipeExpr

structure LiteralCall where
  name : String
  subject : Value
  arguments : List Value

/-- No names at all stand for every name. -/
def selects (names : List String) (name : String) : Bool := names.isEmpty || names.contains name

namespace Visit

def subject? (names : List String) : Visit → Option Value
  | .transform name subject _ => if selects names name then subject.literal? else none
  | _ => none

def call? (names : List String) : Visit → Option LiteralCall
  | .transform name subject arguments =>
    if selects names name then do
      let v ← subject.literal?
      let vs ← Expr.literals? arguments
      return ⟨name, v, vs⟩
    else none
  | _ => none

def subjects (names : List String) (visits : List Visit) : List Value :=
  visits.filterMap (subject? names)

def calls (names : List String) (visits : List Visit) : List LiteralCall :=
  visits.filterMap (call? names)

end Visit
end PipeExpr
