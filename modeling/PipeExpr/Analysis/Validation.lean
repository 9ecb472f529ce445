import PipeExpr.Expr.Walk
import PipeExpr.Registry.Basic

/-!
What is wrong with an expression as far as can be told without evaluating it. Each visited node has
at most one finding.
-/
namespace PipeExpr

inductive Finding where
  | unreadable (error : Error)
  | undefinedTransform (name : String)
  | unfitSubject (name : String) (rule : SubjectRule) (subject : Expr)
  | refusedOperator (token : String)

def Finding.message : Finding → String
  | .unreadable error => error.message
  | .undefinedTransform name => "Transform " ++ Token.quoted name ++ " is not defined"
  | .unfitSubject name rule subject =>
    "Transform " ++ Token.quoted name ++ " can only be used with " ++ rule.expects
      ++ " as subject, got " ++ subject.text
  | .refusedOperator token => "Binary operator " ++ Token.quoted token ++ " is not allowed"

/-- Lists of what an expression may use. Without one, it may use whatever is registered. -/
structure Allowance where
  transforms : Option (List String)
  operators : Option (List String)
deriving Repr, DecidableEq

namespace Allowance

def all : Allowance := ⟨none, none⟩

def lists (names : Option (List String)) (name : String) : Bool :=
  match names with
  | none => true
  | some names => names.contains name

def transform? (a : Allowance) (r : Registry) (name : String) : Option RegisteredTransform :=
  if lists a.transforms name then r.transform? name else none

/-- A list of operators is all that counts if there is one, whatever is registered. -/
def admitsOperator (a : Allowance) (r : Registry) (token : String) : Bool :=
  match a.operators with
  | none => r.hasOperator token
  | some tokens => tokens.contains token

end Allowance

def SubjectRule.finding? (rule : SubjectRule) (name : String) (subject : Expr) : Option Finding :=
  if rule.holds subject then none else some (.unfitSubject name rule subject)

namespace Visit

def finding? (r : Registry) (a : Allowance) : Visit → Option Finding
  | .transform name subject _ =>
    match a.transform? r name with
    | none => some (.undefinedTransform name)
    | some registered => registered.rule.bind (·.finding? name subject)
  | .binary token => if a.admitsOperator r token then none else some (.refusedOperator token)
  | .identifier _ => none

def findings (r : Registry) (a : Allowance) (visits : List Visit) : List Finding :=
  visits.filterMap (finding? r a)

end Visit
end PipeExpr
