import PipeExpr.Json.Document
import PipeExpr.Value.Basic

/-!
Values as JSON documents and back. The text of a value is that of its document: whole numbers below
2^53 are integers there, and numbers that are not finite are null.
-/
namespace PipeExpr.Value

def numberJson (x : Float) : Json :=
  match Decimal.integer? x with
  | some n => if n.natAbs < Nat.pow 2 53 then .integer n else .decimal x
  | none => if Decimal.isFinite x then .decimal x else .null

mutual
def toJson : Value → Json
  | .null => .null
  | .boolean b => .boolean b
  | .number x => numberJson x
  | .string s => .string s
  | .array items => .array (itemsJson items)
  | .object fields => .object (fieldsJson fields)

def itemsJson : List Value → List Json
  | [] => []
  | v :: rest => v.toJson :: itemsJson rest

def fieldsJson : List (String × Value) → List (String × Json)
  | [] => []
  | (key, v) :: rest => (key, v.toJson) :: fieldsJson rest
end

mutual
/-- The document that keeps every number a decimal. -/
def exactJson : Value → Json
  | .null => .null
  | .boolean b => .boolean b
  | .number x => .decimal x
  | .string s => .string s
  | .array items => .array (exactItems items)
  | .object fields => .object (exactFields fields)

def exactItems : List Value → List Json
  | [] => []
  | v :: rest => v.exactJson :: exactItems rest

def exactFields : List (String × Value) → List (String × Json)
  | [] => []
  | (key, v) :: rest => (key, v.exactJson) :: exactFields rest
end

mutual
def ofJson : Json → Value
  | .null => .null
  | .boolean b => .boolean b
  | .integer n => .number (Float.ofInt n)
  | .decimal x => .number x
  | .string s => .string s
  | .array items => .array (ofItems items)
  | .object fields => .object (ofFields fields)

def ofItems : List Json → List Value
  | [] => []
  | j :: rest => ofJson j :: ofItems rest

def ofFields : List (String × Json) → List (String × Value)
  | [] => []
  | (key, j) :: rest => (key, ofJson j) :: ofFields rest
end

def chars (v : Value) : List Char := v.toJson.chars

def text (v : Value) : String := v.toJson.text

end PipeExpr.Value
