import PipeExpr.Error
import PipeExpr.Expr.Render
import PipeExpr.Grammar
import PipeExpr.Log

/-!
The transforms and binary operators that expressions may use. Operators are kept twice: with what
they do, and in the grammar that lexer and parser work with; `insertOperator` writes both.
-/
namespace PipeExpr

/-- What a transform does to its subject and arguments, and the record it leaves. -/
structure Transform where
  apply : Value → List Value → Except Error Value
  note : Value → List Value → Option LogRecord := fun _ _ => none

/-- A rule for the subject of a transform that can be checked without evaluation. -/
inductive SubjectRule where
  | stringLiteral
  | stringArrayLiteral
deriving Repr, DecidableEq

structure RegisteredTransform where
  transform : Transform
  rule : Option SubjectRule

/-- What an operator does. Conjunction and disjunction need their right operand only if the left one
does not decide. -/
inductive Operation where
  | function (f : Value → Value → Except Error Value)
  | conjunction
  | disjunction

structure Operator where
  precedence : Nat
  operation : Operation

structure Registry where
  transforms : Table RegisteredTransform
  operators : Table Operator
  grammar : Grammar

def SubjectRule.expects : SubjectRule → String
  | .stringLiteral => "a string literal"
  | .stringArrayLiteral => "an array of string literals"

def SubjectRule.holds (rule : SubjectRule) (subject : Expr) : Bool :=
  match rule, subject.literal? with
  | .stringLiteral, some v => v.string?.isSome
  | .stringArrayLiteral, some v => v.strings?.isSome
  | _, none => false

namespace Registry

def empty : Registry := ⟨[], [], .empty⟩

def transform? (name : String) (r : Registry) : Option RegisteredTransform :=
  r.transforms.find? name

def operator? (token : String) (r : Registry) : Option Operator := r.operators.find? token

def hasTransform (name : String) (r : Registry) : Bool := r.transforms.contains name

def hasOperator (token : String) (r : Registry) : Bool := r.operators.contains token

def insertTransform (name : String) (t : Transform) (rule : Option SubjectRule) (r : Registry) :
    Registry :=
  { r with transforms := r.transforms.insert name ⟨t, rule⟩ }

def insertOperator (token : String) (precedence : Nat) (operation : Operation) (r : Registry) :
    Registry :=
  { r with
    operators := r.operators.insert token ⟨precedence, operation⟩
    grammar := r.grammar.insert token precedence }

theorem transform?_insertTransform (name other : String) (t : Transform)
    (rule : Option SubjectRule) (r : Registry) :
    (r.insertTransform name t rule).transform? other =
      if other = name then some ⟨t, rule⟩ else r.transform? other :=
  Table.find?_insert name other _ r.transforms

theorem transform?_insertOperator (token : String) (n : Nat) (operation : Operation) (name : String)
    (r : Registry) : (r.insertOperator token n operation).transform? name = r.transform? name := rfl

theorem operator?_insertOperator (token other : String) (n : Nat) (operation : Operation)
    (r : Registry) : (r.insertOperator token n operation).operator? other =
      if other = token then some ⟨n, operation⟩ else r.operator? other :=
  Table.find?_insert token other _ r.operators

def operatorChars : List Char :=
  ['=', '!', '<', '>', '&', '|', '+', '-', '*', '/', '%', '^', '~', '@', '#']

def checkTransformName (name : String) : Except Error Unit :=
  if name.isEmpty then .error (.setting .emptyTransformName)
  else if Grammar.isWord name then .ok ()
  else .error (.setting (.badTransformName name))

/-- A symbol that starts with `!` would hide a negation, unless it is `!=`. -/
def hidesNegation (token : String) : Bool := token.toList.head? == some '!' && token != "!="

/-- An operator is a word, or a symbol of operator characters that hides neither a negation nor a
transform. -/
def checkOperatorToken (token : String) : Except Error Unit :=
  if token.isEmpty then .error (.setting .emptyOperator)
  else if Grammar.isWord token then .ok ()
  else if hidesNegation token || token == "|" || !token.toList.all operatorChars.contains then
    .error (.setting (.badOperator token))
  else .ok ()

def registerTransform (name : String) (t : Transform) (r : Registry) : Except Error Registry := do
  checkTransformName name
  return r.insertTransform name t none

def registerValidatedTransform (name : String) (rule : SubjectRule) (t : Transform)
    (r : Registry) : Except Error Registry := do
  checkTransformName name
  return r.insertTransform name t (some rule)

def registerOperator (token : String) (precedence : Nat)
    (f : Value → Value → Except Error Value) (r : Registry) : Except Error Registry := do
  checkOperatorToken token
  if precedence = 0 then throw (.setting (.zeroPrecedence token))
  return r.insertOperator token precedence (.function f)

def transformNames (r : Registry) : List String := r.transforms.keys

def operatorTokens (r : Registry) : List String := r.operators.keys

def namesText (names : List String) : String :=
  "[" ++ ", ".intercalate (names.map fun n => String.ofList (Text.shownQuoted n.toList)) ++ "]"

def describe (r : Registry) : String :=
  "Registry \x7b transforms: " ++ namesText r.transformNames ++ ", operators: "
    ++ namesText r.operatorTokens ++ " \x7d"

end Registry
end PipeExpr
