import PipeExpr.Decimal.Shortest

/-!
Numbers as text and back. Two notations are in use: the one of JSON documents, and the plain one of
messages, which never has an exponent.
-/
namespace PipeExpr.Decimal

def zeros (n : Nat) : List Char := List.replicate n '0'

/-- Positional notation; `point` says what is written after a whole number. -/
def positional (point : List Char) (d : Digits) : List Char :=
  let whole := (d.lead + 1).toNat
  if d.lead < 0 then '0' :: '.' :: zeros (-d.lead - 1).toNat ++ d.digits
  else if d.digits.length ≤ whole then d.digits ++ zeros (whole - d.digits.length) ++ point
  else d.digits.take whole ++ '.' :: d.digits.drop whole

def scientific (d : Digits) : List Char :=
  let fraction := match d.digits.drop 1 with
    | [] => []
    | ds => '.' :: ds
  let sign := if d.lead < 0 then '-' else '+'
  d.digits.take 1 ++ fraction ++ 'e' :: sign :: Nat.toDigits 10 d.lead.natAbs

/-- A JSON number with a fraction or an exponent: positional when the first digit stands for a
power of ten from -5 to 15. -/
def jsonNotation (d : Digits) : List Char :=
  if -5 ≤ d.lead && d.lead < 16 then positional ['.', '0'] d else scientific d

def isNegative (x : Float) : Bool := x.toBits >>> 63 == 1

def magnitude (x : Float) : Binary := Binary.ofBits (x.toBits &&& 0x7FFFFFFFFFFFFFFF)

def shortestDigits (tie : Tie) (x : Float) : Digits :=
  if (magnitude x).mantissa = 0 then ⟨['0'], 0⟩ else (magnitude x).shortest tie

def signed (x : Float) (text : List Char) : List Char := if isNegative x then '-' :: text else text

def isFinite (x : Float) : Bool := (x.toBits >>> 52) &&& 0x7FF != 0x7FF

def integer? (x : Float) : Option Int :=
  let b := magnitude x
  let divisor := Nat.pow 2 (-b.exponent).toNat
  if isFinite x && b.mantissa % divisor == 0 then
    let n : Int := ((b.mantissa / divisor) * Nat.pow 2 b.exponent.toNat : Nat)
    some (if isNegative x then -n else n)
  else none

/-- The number of a JSON document; a number that is not finite has no text of its own. -/
def jsonText (x : Float) : List Char :=
  if isFinite x then signed x (jsonNotation (shortestDigits .toEven x)) else "null".toList

/-- A number inside a message: always positional, with a name for each number that is not finite. -/
def plainText (x : Float) : List Char :=
  if isFinite x then signed x (positional [] (shortestDigits .upward x))
  else if x.toBits &&& 0xFFFFFFFFFFFFF == 0 then signed x "inf".toList
  else "NaN".toList

def intText (n : Int) : List Char :=
  if n < 0 then '-' :: Nat.toDigits 10 n.natAbs else Nat.toDigits 10 n.natAbs

def natOfDigits (digits : List Char) : Nat :=
  digits.foldl (fun n c => 10 * n + (c.toNat - '0'.toNat)) 0

def ofDigits (whole fraction : List Char) : Float :=
  Float.ofScientific (natOfDigits (whole ++ fraction)) true fraction.length

/-- The number that a text of digits with at most one point among them stands for, if it has a
digit. -/
def ofText? (s : List Char) : Option Float :=
  let whole := s.takeWhile Char.isDigit
  match s.dropWhile Char.isDigit with
  | [] => if whole.isEmpty then none else some (ofDigits whole [])
  | '.' :: fraction =>
    if fraction.all Char.isDigit && !(whole ++ fraction).isEmpty then some (ofDigits whole fraction)
    else none
  | _ => none

end PipeExpr.Decimal
