import PipeExpr.Json.Document
import PipeExpr.Json.Raw

/-!
Reading JSON documents. A number is an integer when it is written as one and fits 64 bits; any other
number is its first digits that fit 64 bits, scaled by a power of ten. Containers nest at most 127
deep, and a surrogate outside a pair is refused.
-/
namespace PipeExpr.Json

def resolvePieces : List Piece → Option (List Char)
  | [] => some []
  | .char c :: rest => (resolvePieces rest).map (c :: ·)
  | .unit high :: .unit low :: rest =>
    if 0xD800 ≤ high && high < 0xDC00 then
      if 0xDC00 ≤ low && low < 0xE000 then
        let c := Char.ofNat (0x10000 + (high - 0xD800) * 0x400 + (low - 0xDC00))
        (resolvePieces rest).map (c :: ·)
      else none
    else if 0xDC00 ≤ high && high < 0xE000 then none
    else (resolvePieces (.unit low :: rest)).map (Char.ofNat high :: ·)
  | .unit n :: rest =>
    if 0xD800 ≤ n && n < 0xE000 then none
    else (resolvePieces rest).map (Char.ofNat n :: ·)

def resolveString (pieces : List Piece) : Option String := (resolvePieces pieces).map String.ofList

/-- Appends digits to a number while it stays below 2^64; the digits left out come second. -/
def takeDigits (n : Nat) : List Char → Nat × List Char
  | [] => (n, [])
  | d :: rest =>
    let next := 10 * n + (d.toNat - '0'.toNat)
    if next < Nat.pow 2 64 then takeDigits next rest else (n, d :: rest)

def powerOfTen (k : Nat) : Float := Float.ofScientific 1 false k

def divideByPower (x : Float) (k : Nat) : Float :=
  if k ≤ 308 then x / powerOfTen k
  else if x == 0.0 then x
  else divideByPower (x / powerOfTen 308) (k - 308)
termination_by k

/-- `n * 10 ^ k`, rounded at each step; none when it is out of range. -/
def scaled? (n : Nat) (k : Int) : Option Float :=
  let x := Float.ofNat n
  if k < 0 then some (divideByPower x k.natAbs)
  else if k ≤ 308 then
    let y := x * powerOfTen k.toNat
    if y.isInf then none else some y
  else if n = 0 then some x
  else none

def Numeral.decimal? (n : Numeral) : Option Float := do
  let fraction := n.fraction.getD []
  let (start, left) := takeDigits 0 n.whole
  let (digits, dropped) := takeDigits start fraction
  let places : Int := (left.length : Int) - ((fraction.length : Int) - dropped.length)
  let exponent : Int := match n.exponent with
    | none => 0
    | some (true, ds) => -(Decimal.natOfDigits ds : Int)
    | some (false, ds) => Decimal.natOfDigits ds
  let x ← scaled? digits (places + exponent)
  return if n.negative then -x else x

/-- A number written as an integer stays one if it fits 64 bits, with a sign or without. Minus zero
is no integer. -/
def Numeral.resolve (n : Numeral) : Option Json :=
  match n.fraction, n.exponent with
  | none, none =>
    let m := Decimal.natOfDigits n.whole
    if !n.negative && m < Nat.pow 2 64 then some (.integer m)
    else if n.negative && 0 < m && m ≤ Nat.pow 2 63 then some (.integer (-(m : Int)))
    else n.decimal?.map .decimal
  | _, _ => n.decimal?.map .decimal

mutual
/-- The document that a raw one stands for, its containers nesting at most `levels` deep. -/
def Raw.resolve (levels : Nat) : Raw → Option Json
  | .null => some .null
  | .boolean b => some (.boolean b)
  | .number n => n.resolve
  | .string pieces => (resolveString pieces).map .string
  | .array items => if levels = 0 then none else (resolveItems (levels - 1) items).map .array
  | .object fields =>
    if levels = 0 then none
    else (resolveFields (levels - 1) fields).map fun fs => .object (Table.ofList fs)

def resolveItems (levels : Nat) : List Raw → Option (List Json)
  | [] => some []
  | raw :: rest => do
    let item ← raw.resolve levels
    let items ← resolveItems levels rest
    return item :: items

def resolveFields (levels : Nat) : List (List Piece × Raw) → Option (List (String × Json))
  | [] => some []
  | (key, raw) :: rest => do
    let key ← resolveString key
    let item ← raw.resolve levels
    let fields ← resolveFields levels rest
    return (key, item) :: fields
end

def maxLevels : Nat := 127

def read? (s : String) : Option Json := (Raw.read? s.toList).bind (Raw.resolve maxLevels)

end PipeExpr.Json
