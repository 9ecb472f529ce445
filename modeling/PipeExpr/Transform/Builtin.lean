import PipeExpr.Registry.Basic

/-!
The transforms that every standard registry has, and `mapby`. Null is passed over: it has no items,
and it is the result where a number is asked for.
-/
namespace PipeExpr.Transform
open Value (number string array)

def silent (apply : Value → List Value → Except Error Value) : Transform := { apply := apply }

def unfit (name expects got : String) : Error := .mismatch (.transform name expects got)

def debugLabel : List Value → String
  | .string label :: _ => label
  | _ => "JEXL debug"

def debug : Transform where
  apply subject _ := .ok subject
  note subject arguments := some ⟨.debug, debugLabel arguments ++ ": " ++ subject.text⟩

/-- The numbers among the items, which may also be null. -/
def numberItems (name : String) : List Value → Except Error (List Float)
  | [] => .ok []
  | .null :: rest => numberItems name rest
  | .number x :: rest => (numberItems name rest).map (x :: ·)
  | v :: _ => .error (unfit name "numbers" v.kind.name)

/-- The numbers of an array, none at all for null. -/
def numbers? (name : String) : Value → Except Error (Option (List Float))
  | .null => .ok none
  | .array items => (numberItems name items).map some
  | v => .error (unfit name "an array" v.kind.name)

def reduce (f : Float → Float → Float) : Option (List Float) → Value
  | some (x :: xs) => number (xs.foldl f x)
  | _ => .null

/-- The smaller of two numbers; a number wins over none. -/
def smaller (x y : Float) : Float := if x.isNaN || y < x then y else x

def larger (x y : Float) : Float := if x.isNaN || x < y then y else x

def min (subject : Value) (_ : List Value) : Except Error Value :=
  (numbers? "min" subject).map (reduce smaller)

def max (subject : Value) (_ : List Value) : Except Error Value :=
  (numbers? "max" subject).map (reduce larger)

/-- The sum of no numbers is minus zero, that of null is zero. -/
def sum (subject : Value) (_ : List Value) : Except Error Value :=
  (numbers? "sum" subject).map fun
    | none => number 0.0
    | some xs => number (xs.foldl (· + ·) (-0.0))

def number? (name : String) : Value → Except Error (Option Float)
  | .null => .ok none
  | .number x => .ok (some x)
  | v => .error (unfit name "a number" v.kind.name)

def mapNumber (name : String) (f : Float → Float) (subject : Value) : Except Error Value :=
  (number? name subject).map fun
    | none => .null
    | some x => number (f x)

/-- `r * x ^ n` by repeated squaring. -/
def timesPower (r x : Float) (n : Nat) : Float :=
  let r := if n % 2 = 1 then r * x else r
  if n / 2 = 0 then r else timesPower r (x * x) (n / 2)
termination_by n

/-- A power of ten; one with a negative exponent is a reciprocal. -/
def powerOfTen (k : Int) : Float :=
  let p := timesPower 1.0 10.0 k.natAbs
  if k < 0 then 1.0 / p else p

/-- The nearest number of 32 bits. -/
def clamp32 (n : Int) : Int :=
  if n < -2147483648 then -2147483648 else if 2147483647 < n then 2147483647 else n

def digitCount : List Value → Except Error Int
  | [] => .ok 0
  | v :: _ =>
    match v.number?.bind Decimal.integer? with
    | some n => .ok (clamp32 n)
    | none => .error (unfit "round" "an integer digit count" v.text)

/-- Rounds to a number of digits behind the point, halves away from zero. -/
def round (subject : Value) (arguments : List Value) : Except Error Value := do
  let factor := powerOfTen (← digitCount arguments)
  mapNumber "round" (fun x => (x * factor).round / factor) subject

def ceil (subject : Value) (_ : List Value) : Except Error Value :=
  mapNumber "ceil" Float.ceil subject

def floor (subject : Value) (_ : List Value) : Except Error Value :=
  mapNumber "floor" Float.floor subject

def size : Value → Except Error Nat
  | .null => .ok 0
  | .array items => .ok items.length
  | .string s => .ok s.length
  | .object fields => .ok fields.length
  | v => .error (.mismatch (.uncountable v.kind))

def count (subject : Value) (_ : List Value) : Except Error Value :=
  (size subject).map fun n => number (Float.ofNat n)

def stringify (subject : Value) (_ : List Value) : Except Error Value := .ok (string subject.text)

def mapKeys : List Value → Except Error (List String)
  | [] => .ok []
  | .string key :: rest => (mapKeys rest).map (key :: ·)
  | v :: _ => .error (unfit "mapby" "string keys" v.text)

def field (row : Value) (key : String) : Value :=
  ((row.object?.bind (Table.find? key)).getD .null)

/-- The fields of each row: by one key a value, by several an array of values. -/
def mapby (subject : Value) (arguments : List Value) : Except Error Value :=
  match subject with
  | .null => .ok (array [])
  | .array rows => do
    match ← mapKeys arguments with
    | [] => throw (.failed .noMapKey)
    | [key] => return array (rows.map (field · key))
    | keys => return array (rows.map fun row => array (keys.map (field row)))
  | v => .error (unfit "mapby" "an array" v.kind.name)

end PipeExpr.Transform
