import PipeExpr.Error

/-!
The operators that compare values and look for one value in another.
-/
namespace PipeExpr.Operation
open Value (boolean)

def equal (a b : Value) : Except Error Value := .ok (boolean (a.same b))

def notEqual (a b : Value) : Except Error Value := .ok (boolean (!a.same b))

def orderNumbers (x y : Float) : Option Ordering :=
  if x < y then some .lt
  else if x == y then some .eq
  else if y < x then some .gt
  else none

def orderStrings (s t : String) : Ordering :=
  if s < t then .lt else if s = t then .eq else .gt

/-- Numbers are ordered by size and strings by their characters; nothing else is ordered. -/
def order? : Value → Value → Option Ordering
  | .number x, .number y => orderNumbers x y
  | .string s, .string t => some (orderStrings s t)
  | _, _ => none

def compare (operator : String) (holds : Ordering → Bool) (a b : Value) : Except Error Value :=
  match order? a b with
  | some o => .ok (boolean (holds o))
  | none => .error (.mismatch (.comparison operator a.kind b.kind))

def less : Value → Value → Except Error Value := compare "<" Ordering.isLT

def lessEqual : Value → Value → Except Error Value := compare "<=" Ordering.isLE

def greater : Value → Value → Except Error Value := compare ">" Ordering.isGT

def greaterEqual : Value → Value → Except Error Value := compare ">=" Ordering.isGE

def occursIn (needle : List Char) : List Char → Bool
  | [] => needle.isEmpty
  | c :: s => needle.isPrefixOf (c :: s) || occursIn needle s

def member (items : List Value) (v : Value) : Bool := items.any v.same

/-- A string in a string, a value in an array, a key in an object; nothing is in null. -/
def contains (needle haystack : Value) : Except Error Value :=
  match needle, haystack with
  | .string n, .string h => .ok (boolean (occursIn n.toList h.toList))
  | n, .array items => .ok (boolean (member items n))
  | .string key, .object fields => .ok (boolean (Table.contains key fields))
  | _, .null => .ok (boolean false)
  | n, h => .error (.mismatch (.search n.kind h.kind))

def arrayItems : Value → Except Error (List Value)
  | .null => .ok []
  | .array items => .ok items
  | v => .error (.mismatch (.intersection v.kind))

def intersects (a b : Value) : Except Error Value := do
  let xs ← arrayItems a
  let ys ← arrayItems b
  return boolean (xs.any (member ys))

end PipeExpr.Operation
