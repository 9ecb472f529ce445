/-!
The fewest decimal digits that name a binary64 number. Every finite number is an exact decimal, so
the search runs on natural numbers: it tries ever finer decimal grids and takes the first one that
has a point inside the interval of reals rounding to the number.
-/
namespace PipeExpr.Decimal

/-- Which of two equally near candidates is taken. -/
inductive Tie where
  | toEven
  | upward

/-- A finite magnitude `mantissa * 2 ^ exponent`. -/
structure Binary where
  mantissa : Nat
  exponent : Int
  /-- The gap to the number below is half the gap to the number above. -/
  narrowBelow : Bool

def Binary.ofBits (bits : UInt64) : Binary :=
  let e := ((bits >>> 52) &&& 0x7FF).toNat
  let f := (bits &&& 0xFFFFFFFFFFFFF).toNat
  if e = 0 then ⟨f, -1074, false⟩ else ⟨Nat.pow 2 52 + f, (e : Int) - 1075, f == 0 && e > 1⟩

/-- Decimal digits, the first one not zero unless it is the only one, the first standing for
`10 ^ lead`. -/
structure Digits where
  digits : List Char
  lead : Int
deriving Repr, DecidableEq

/-- The reals that round to a number, as whole multiples of `10 ^ (-places)`. -/
structure Interval where
  low : Nat
  value : Nat
  high : Nat
  closed : Bool
  places : Nat

/-- Halfway to the neighbours on either side; the ends belong to it when the mantissa is even. -/
def Binary.interval (b : Binary) : Interval :=
  let places := (2 - b.exponent).toNat
  let scale (n : Nat) : Nat := n * Nat.pow 2 (b.exponent - 2).toNat * Nat.pow 5 places
  { low := scale (4 * b.mantissa - if b.narrowBelow then 1 else 2)
    value := scale (4 * b.mantissa)
    high := scale (4 * b.mantissa + 2)
    closed := b.mantissa % 2 == 0
    places := places }

def Interval.contains (i : Interval) (n : Nat) : Bool :=
  if i.closed then i.low ≤ n && n ≤ i.high else i.low < n && n < i.high

def Interval.onGrid (i : Interval) (tie : Tie) (grid : Nat) : Option Nat :=
  let below := i.value / grid * grid
  let above := below + grid
  match i.contains below, i.contains above with
  | false, false => none
  | true, false => some below
  | false, true => some above
  | true, true =>
    match compare (2 * i.value) (below + above) with
    | .lt => some below
    | .gt => some above
    | .eq =>
      match tie with
      | .upward => some above
      | .toEven => some (if (below / grid) % 2 = 0 then below else above)

/-- The first of the grids `10 ^ n, …, 10` with a point in the interval, else the value itself. -/
def Interval.search (i : Interval) (tie : Tie) : Nat → Nat
  | 0 => i.value
  | n + 1 => (i.onGrid tie (Nat.pow 10 (n + 1))).getD (i.search tie n)

def dropTrailingZeros (digits : List Char) : List Char :=
  (digits.reverse.dropWhile (· == '0')).reverse

def Binary.shortest (b : Binary) (tie : Tie) : Digits :=
  let i := b.interval
  let chosen := Nat.toDigits 10 (i.search tie ((Nat.toDigits 10 i.value).length - 1))
  ⟨dropTrailingZeros chosen, (chosen.length : Int) - 1 - i.places⟩

end PipeExpr.Decimal
