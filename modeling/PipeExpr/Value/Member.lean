import PipeExpr.Error
import PipeExpr.Value.Json

/-!
Members of values: fields of objects by name, items of arrays by place.
-/
namespace PipeExpr.Value

/-- The item at a place; there is none at a place below zero or between two items. -/
def itemAt? (items : List Value) (place : Float) : Option Value :=
  match Decimal.integer? place with
  | some (.ofNat n) => items[n]?
  | _ => none

def property? (target property : Value) : Option Value :=
  match target, property with
  | .object fields, .string key => Table.find? key fields
  | .array items, .number place => itemAt? items place
  | _, _ => none

/-- The member of a value: null where an object, an array or null has none. Other values have no
members at all. -/
def member (target property : Value) : Except Error Value :=
  match target, property with
  | .object fields, .string key => .ok ((Table.find? key fields).getD .null)
  | .array items, .number place => .ok ((itemAt? items place).getD .null)
  | .null, _ => .ok .null
  | target, property => .error (.mismatch (.property property.text target.kind))

end PipeExpr.Value
