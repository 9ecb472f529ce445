import PipeExpr.Expr.Basic
import PipeExpr.Text.Name

/-!
Expressions as text. Parentheses stand around every operand that is itself an operation; a member
whose name is a plain name is written behind a dot, any other one in brackets.
-/
namespace PipeExpr.Expr

/-- Operations stand in parentheses where they are operands. -/
def isOperation : Expr → Bool
  | .not _ | .negate _ | .binary .. | .conditional .. => true
  | _ => false

def enclosed (parentheses : Bool) (text : List Char) : List Char :=
  if parentheses then '(' :: text ++ [')'] else text

def dottedName? : Expr → Option (List Char)
  | .literal (.string name) => if Text.isName name.toList then some name.toList else none
  | _ => none

mutual
def chars : Expr → List Char
  | .literal v => v.chars
  | .identifier name => name.toList
  | .member target property =>
    let object := enclosed target.isOperation target.chars
    match dottedName? property with
    | some name => object ++ '.' :: name
    | none => object ++ '[' :: property.chars ++ [']']
  | .not operand => '!' :: enclosed operand.isOperation operand.chars
  | .negate operand => '-' :: enclosed operand.isOperation operand.chars
  | .binary operator left right =>
    enclosed left.isOperation left.chars ++ ' ' :: operator.toList ++ ' ' ::
      enclosed right.isOperation right.chars
  | .conditional test consequent alternate =>
    enclosed test.isOperation test.chars ++ ' ' :: '?' :: ' ' :: consequent.chars
      ++ ' ' :: ':' :: ' ' :: alternate.chars
  | .transform name subject arguments =>
    let call := enclosed subject.isOperation subject.chars ++ '|' :: name.toList
    match arguments with
    | [] => call
    | _ => call ++ '(' :: itemChars arguments ++ [')']
  | .array items => '[' :: itemChars items ++ [']']
  | .object entries => '{' :: entryChars entries ++ ['}']

def itemChars : List Expr → List Char
  | [] => []
  | [e] => e.chars
  | e :: rest => e.chars ++ ',' :: ' ' :: itemChars rest

def entryChars : List (String × Expr) → List Char
  | [] => []
  | [(key, e)] => Json.stringChars key ++ ':' :: ' ' :: e.chars
  | (key, e) :: rest =>
    Json.stringChars key ++ ':' :: ' ' :: e.chars ++ ',' :: ' ' :: entryChars rest
end

theorem chars_not (operand : Expr) :
    (Expr.not operand).chars = '!' :: enclosed operand.isOperation operand.chars := by
  rw [chars]

theorem chars_negate (operand : Expr) :
    (negate operand).chars = '-' :: enclosed operand.isOperation operand.chars := by
  rw [chars]

def text (e : Expr) : String := String.ofList e.chars

end PipeExpr.Expr
