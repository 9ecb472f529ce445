import PipeExpr.Table
import PipeExpr.Decimal.Notation

/-!
The values of expressions: those of JSON, with binary64 numbers and objects as tables.
-/
namespace PipeExpr

inductive Value where
  | null
  | boolean (b : Bool)
  | number (x : Float)
  | string (s : String)
  | array (items : List Value)
  | object (fields : List (String × Value))

inductive Kind where
  | null
  | boolean
  | number
  | string
  | array
  | object
deriving Repr, DecidableEq

def Kind.name : Kind → String
  | .null => "null"
  | .boolean => "boolean"
  | .number => "number"
  | .string => "string"
  | .array => "array"
  | .object => "object"

namespace Value

instance : Inhabited Value := ⟨.null⟩

def kind : Value → Kind
  | .null => .null
  | .boolean _ => .boolean
  | .number _ => .number
  | .string _ => .string
  | .array _ => .array
  | .object _ => .object

/-- False are null, false, zeros, numbers that are none, and whatever is empty. -/
def truthy : Value → Bool
  | .null => false
  | .boolean b => b
  | .number x => x != 0.0 && !x.isNaN
  | .string s => !s.isEmpty
  | .array items => !items.isEmpty
  | .object fields => !fields.isEmpty

def number? : Value → Option Float
  | .number x => some x
  | _ => none

def boolean? : Value → Option Bool
  | .boolean b => some b
  | _ => none

def string? : Value → Option String
  | .string s => some s
  | _ => none

def array? : Value → Option (List Value)
  | .array items => some items
  | _ => none

def object? : Value → Option (Table Value)
  | .object fields => some fields
  | _ => none

def isNull : Value → Bool
  | .null => true
  | _ => false

def strings? (v : Value) : Option (List String) := v.array?.bind fun items => items.mapM string?

theorem string?_eq_some {v : Value} {s : String} : v.string? = some s ↔ v = .string s := by
  cases v <;> simp [string?]

theorem mapM_string?_eq_some {items : List Value} {texts : List String} :
    items.mapM string? = some texts ↔ items = texts.map .string := by
  induction items generalizing texts with
  | nil => simp [eq_comm]
  | cons v rest ih =>
    rw [List.mapM_cons, eq_comm (a := v :: rest), List.map_eq_cons_iff]
    simp only [bind, Option.bind_eq_some_iff, string?_eq_some, ih]
    constructor
    · rintro ⟨s, rfl, ss, rfl, h⟩
      exact ⟨s, ss, (Option.some.inj h).symm, rfl, rfl⟩
    · rintro ⟨s, ss, rfl, rfl, rfl⟩
      exact ⟨s, rfl, ss, rfl, rfl⟩

theorem strings?_eq_some {v : Value} {texts : List String} :
    v.strings? = some texts ↔ v = .array (texts.map .string) := by
  cases v with
  | array items => simp [strings?, array?, mapM_string?_eq_some]
  | _ => simp [strings?, array?]

mutual
/-- Equal values, numbers being compared as numbers: the zeros are equal and no number that is none
equals itself. -/
def same : Value → Value → Bool
  | .null, .null => true
  | .boolean a, .boolean b => a == b
  | .number x, .number y => x == y
  | .string s, .string t => s == t
  | .array xs, .array ys => sameItems xs ys
  | .object xs, .object ys => sameFields xs ys
  | _, _ => false

def sameItems : List Value → List Value → Bool
  | [], [] => true
  | x :: xs, y :: ys => x.same y && sameItems xs ys
  | _, _ => false

def sameFields : List (String × Value) → List (String × Value) → Bool
  | [], [] => true
  | (k, x) :: xs, (l, y) :: ys => k == l && x.same y && sameFields xs ys
  | _, _ => false
end

instance : BEq Value := ⟨same⟩

end Value
end PipeExpr
