import GraphRequest.Number.Shortest

/-!
Floating-point numbers as text. One layout serves every format; a `FloatFormat` holds what the
formats decide differently.
-/

namespace GraphRequest

/-- Numbers from `10 ^ least` up to, but not including, `10 ^ limit` are written with a point and
no exponent. -/
structure FloatFormat where
  least : Int
  limit : Int
  plusSign : Bool
  tie : TieRule
  deriving DecidableEq, Repr

namespace FloatFormat

def zeros (count : Int) : List Char :=
  List.replicate count.toNat '0'

/-- A point always stands between digits, if need be with a zero beside it. -/
def positional (x : Decimal) : List Char :=
  let digits := Nat.toDigits 10 x.digits
  let point : Int := digits.length + x.exponent
  if 0 ≤ x.exponent then digits ++ zeros x.exponent ++ ['.', '0']
  else if 0 < point then digits.take point.toNat ++ '.' :: digits.drop point.toNat
  else ['0', '.'] ++ zeros (-point) ++ digits

/-- One digit before the point, which is left out when no digit follows. -/
def scientific (plusSign : Bool) (x : Decimal) : List Char :=
  let power := x.magnitude
  let mantissa := match Nat.toDigits 10 x.digits with
    | first :: second :: rest => first :: '.' :: second :: rest
    | digits => digits
  let sign := if power < 0 then ['-'] else if plusSign then ['+'] else []
  mantissa ++ 'e' :: (sign ++ Nat.toDigits 10 power.natAbs)

def magnitudeText (format : FloatFormat) (x : Binary64.Dyadic) : List Char :=
  if x.significand = 0 then ['0', '.', '0']
  else
    let decimal := x.shortest format.tie
    if format.least ≤ decimal.magnitude && decimal.magnitude < format.limit then positional decimal
    else scientific format.plusSign decimal

def signText (negative : Bool) : List Char :=
  if negative then ['-'] else []

def chars (format : FloatFormat) : Binary64 → List Char
  | .nan => ['N', 'a', 'N']
  | .infinite negative => signText negative ++ ['i', 'n', 'f']
  | .finite negative exponent fraction =>
      signText negative ++ format.magnitudeText (Binary64.dyadic exponent fraction)

def text (format : FloatFormat) (x : Binary64) : String :=
  String.ofList (format.chars x)

end FloatFormat

end GraphRequest
