import PipeExpr.Error

/-!
The arithmetic operators. All work on numbers; the sum of two strings is their concatenation.
-/
namespace PipeExpr.Operation
open Value (number string)

def operands (operator : String) : Value → Value → Except Error (Float × Float)
  | .number x, .number y => .ok (x, y)
  | a, b => .error (.mismatch (.operands operator a.kind b.kind))

def add (a b : Value) : Except Error Value :=
  match a, b with
  | .string s, .string t => .ok (string (s ++ t))
  | a, b => (operands "+" a b).map fun p => number (p.1 + p.2)

def subtract (a b : Value) : Except Error Value :=
  (operands "-" a b).map fun p => number (p.1 - p.2)

def multiply (a b : Value) : Except Error Value :=
  (operands "*" a b).map fun p => number (p.1 * p.2)

def divide (a b : Value) : Except Error Value := do
  let (x, y) ← operands "/" a b
  if y == 0.0 then throw (.failed .divisionByZero)
  return number (x / y)

def floorDivide (a b : Value) : Except Error Value := do
  let (x, y) ← operands "//" a b
  if y == 0.0 then throw (.failed .divisionByZero)
  return number (x / y).floor

/-- What is left of the dividend when the divisor is taken from it a whole number of times, rounded
down. -/
def modulo (a b : Value) : Except Error Value := do
  let (x, y) ← operands "%" a b
  if y == 0.0 then throw (.failed .moduloByZero)
  return number (x - y * (x / y).floor)

def power (a b : Value) : Except Error Value :=
  (operands "^" a b).map fun p => number (p.1.pow p.2)

end PipeExpr.Operation
