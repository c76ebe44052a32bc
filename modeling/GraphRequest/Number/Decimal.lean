/-!
Decimal numbers and their digits.
-/

namespace GraphRequest

/-- The number `digits * 10 ^ exponent`. -/
structure Decimal where
  digits : Nat
  exponent : Int
  deriving DecidableEq, Repr

namespace Decimal

def digitCount (n : Nat) : Nat :=
  (Nat.toDigits 10 n).length

def ofDigits (digits : List Char) : Nat :=
  digits.foldl (fun value digit => value * 10 + (digit.toNat - '0'.toNat)) 0

def magnitude (x : Decimal) : Int :=
  digitCount x.digits + x.exponent - 1

end Decimal

end GraphRequest
