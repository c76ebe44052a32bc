import GraphRequest.Number.Binary64

/-!
Products and quotients of floating-point numbers, and decimals that are read by them. Each step rounds
to the nearest number, so that a decimal of many digits need not come to the nearest one.
-/

namespace GraphRequest.Binary64

def neg : Binary64 → Binary64
  | nan => nan
  | infinite negative => infinite (!negative)
  | finite negative exponent fraction => finite (!negative) exponent fraction

def ofScaledRatio (negative : Bool) (numerator denominator : Nat) (scale : Int) : Binary64 :=
  let ratio := scaleRatio numerator denominator (-scale)
  ofRatio negative ratio.1 ratio.2

def mul : Binary64 → Binary64 → Binary64
  | finite a e f, finite b e' f' =>
      let x := dyadic e f
      let y := dyadic e' f'
      ofScaledRatio (a != b) (x.significand * y.significand) 1 (x.scale + y.scale)
  | infinite a, finite b e f | finite b e f, infinite a =>
      if (dyadic e f).significand = 0 then nan else infinite (a != b)
  | infinite a, infinite b => infinite (a != b)
  | _, _ => nan

def div : Binary64 → Binary64 → Binary64
  | finite a e f, finite b e' f' =>
      let x := dyadic e f
      let y := dyadic e' f'
      if y.significand ≠ 0 then
        ofScaledRatio (a != b) x.significand y.significand (x.scale - y.scale)
      else if x.significand = 0 then nan
      else infinite (a != b)
  | infinite a, finite b _ _ => infinite (a != b)
  | finite a _ _, infinite b => zero (a != b)
  | _, _ => nan

/-- The number nearest to a power of ten. It is infinite past `10 ^ 308`. -/
def tenPower (power : Nat) : Binary64 :=
  ofDecimal false ⟨1, power⟩

/-- Divides by `10 ^ 308` as often as asked for, unless nothing is left, and then by `10 ^ power`. -/
def lower (power : Nat) : Nat → Binary64 → Binary64
  | 0, x => x.div (tenPower power)
  | rounds + 1, x => if x = zero false then x else lower power rounds (x.div (tenPower 308))

/-- The whole number of the digits is rounded first, and so is every product or quotient with a power
of ten that is at most `10 ^ 308`. -/
def ofDecimalInSteps (x : Decimal) : Binary64 :=
  let start := ofRatio false x.digits 1
  if x.exponent < 0 then
    let places := (-x.exponent).toNat
    let rounds := (places - 1) / 308
    lower (places - 308 * rounds) rounds start
  else if x.digits = 0 then start
  else start.mul (tenPower x.exponent.toNat)

end GraphRequest.Binary64
