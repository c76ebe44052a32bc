import GraphRequest.Number.Decimal

/-!
Floating-point numbers of the 64-bit binary format, and rounding a ratio or a decimal to the nearest
of them. All arithmetic is on natural numbers, and a tie goes to the even significand.
-/

namespace GraphRequest

/-- A finite number has the value `significand * 2 ^ scale`; payloads of NaN are not told apart. -/
inductive Binary64
  | nan
  | infinite (negative : Bool)
  | finite (negative : Bool) (exponent : Fin 2047) (fraction : Fin (Nat.pow 2 52))
  deriving DecidableEq, Repr

namespace Binary64

def isFinite : Binary64 → Bool
  | finite .. => true
  | _ => false

def zero (negative : Bool) : Binary64 :=
  finite negative 0 0

structure Dyadic where
  significand : Nat
  scale : Int
  deriving DecidableEq, Repr

def dyadic (exponent : Fin 2047) (fraction : Fin (Nat.pow 2 52)) : Dyadic :=
  if exponent.val = 0 then ⟨fraction.val, -1074⟩
  else ⟨Nat.pow 2 52 + fraction.val, (exponent.val : Int) - 1075⟩

/-- The finite numbers of one sign in rising order are numbered from zero, and past the last one
stands infinity. -/
def ofRank (negative : Bool) (rank : Nat) : Binary64 :=
  if h : rank / Nat.pow 2 52 < 2047 then
    finite negative ⟨rank / Nat.pow 2 52, h⟩ ⟨rank % Nat.pow 2 52, Nat.mod_lt _ (by decide)⟩
  else infinite negative

/-- The nearest whole number to a ratio; a half goes to the even neighbour. -/
def roundRatio (numerator denominator : Nat) : Nat :=
  let whole := numerator / denominator
  let twice := 2 * (numerator % denominator)
  if twice < denominator then whole
  else if denominator < twice then whole + 1
  else if whole % 2 = 0 then whole else whole + 1

def scaleRatio (numerator denominator : Nat) (power : Int) : Nat × Nat :=
  if 0 ≤ power then (numerator, denominator * Nat.pow 2 power.toNat)
  else (numerator * Nat.pow 2 (-power).toNat, denominator)

/-- The greatest power of two that is at most the ratio. -/
def log2Ratio (numerator denominator : Nat) : Int :=
  let guess : Int := (numerator.log2 : Int) - (denominator.log2 : Int)
  let scaled := scaleRatio numerator denominator guess
  if scaled.2 ≤ scaled.1 then guess else guess - 1

/-- A significand of 53 bits, or fewer where the least scale allows no more. A significand that
rounds up to `2 ^ 53` is the next rank like any other. -/
def ofRatio (negative : Bool) (numerator denominator : Nat) : Binary64 :=
  if numerator = 0 then zero negative
  else
    let scale := max (log2Ratio numerator denominator - 52) (-1074)
    let scaled := scaleRatio numerator denominator scale
    ofRank negative ((scale + 1074).toNat * Nat.pow 2 52 + roundRatio scaled.1 scaled.2)

/-- Decimals at or above `10 ^ 310` are infinite and those below `10 ^ (-330)` are zero; between
these bounds the ratio is formed. -/
def ofDecimal (negative : Bool) (x : Decimal) : Binary64 :=
  if x.digits = 0 || x.magnitude < -330 then zero negative
  else if 310 ≤ x.magnitude then infinite negative
  else if 0 ≤ x.exponent then ofRatio negative (x.digits * Nat.pow 10 x.exponent.toNat) 1
  else ofRatio negative x.digits (Nat.pow 10 (-x.exponent).toNat)

/-- Equality of numbers: the zeros are equal, and NaN equals nothing. -/
def sameNumber : Binary64 → Binary64 → Bool
  | nan, _ => false
  | infinite a, infinite b => a = b
  | finite a e f, finite b e' f' => e = e' && f = f' && (a = b || e.val = 0 && f.val = 0)
  | _, _ => false

end Binary64

end GraphRequest
