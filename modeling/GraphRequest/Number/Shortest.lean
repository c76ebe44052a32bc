import GraphRequest.Number.Binary64

/-!
The shortest decimal that reads back as a given binary number: a point of the coarsest decimal grid
that meets the interval of reals which round to it, and of two such points the nearer one.
-/

namespace GraphRequest

inductive TieRule
  | upward
  | toEven
  deriving DecidableEq, Repr

namespace Shortest

/-- The reals that round to a number: from `low` to `high` around `middle`, each over
`denominator`, the ends among them iff `closed`. -/
structure Interval where
  low : Nat
  middle : Nat
  high : Nat
  denominator : Nat
  closed : Bool
  deriving DecidableEq, Repr

/-- The gap below a power of two is half as wide as the one above it. -/
def interval (x : Binary64.Dyadic) : Interval :=
  let below := if x.significand = Nat.pow 2 52 && -1074 < x.scale then 1 else 2
  let quarter := x.scale - 2
  let factor := if 0 ≤ quarter then Nat.pow 2 quarter.toNat else 1
  { low := (4 * x.significand - below) * factor
    middle := 4 * x.significand * factor
    high := (4 * x.significand + 2) * factor
    denominator := if 0 ≤ quarter then 1 else Nat.pow 2 (-quarter).toNat
    closed := x.significand % 2 = 0 }

namespace Interval

def onGrid (i : Interval) (power : Int) : Interval :=
  if 0 ≤ power then { i with denominator := i.denominator * Nat.pow 10 power.toNat }
  else
    let factor := Nat.pow 10 (-power).toNat
    { i with low := i.low * factor, middle := i.middle * factor, high := i.high * factor }

def holds (i : Interval) (n : Nat) : Bool :=
  let point := n * i.denominator
  if i.closed then i.low ≤ point && point ≤ i.high else i.low < point && point < i.high

def nearest (tie : TieRule) (i : Interval) : Nat :=
  let below := i.middle / i.denominator
  let twice := 2 * (i.middle % i.denominator)
  if twice < i.denominator then below
  else if i.denominator < twice then below + 1
  else match tie with
    | .upward => below + 1
    | .toEven => if below % 2 = 0 then below else below + 1

def hit (tie : TieRule) (i : Interval) : Option Nat :=
  let below := i.middle / i.denominator
  match i.holds below, i.holds (below + 1) with
  | true, true => some (i.nearest tie)
  | true, false => some below
  | false, true => some (below + 1)
  | false, false => none

/-- Tries the grids of `10 ^ power` and finer ones. The middle of the interval lies on the last
grid that is asked for. -/
def coarsest (tie : TieRule) (i : Interval) (power : Int) : Nat → Decimal
  | 0 => ⟨(i.onGrid power).middle / (i.onGrid power).denominator, power⟩
  | finer + 1 =>
      match (i.onGrid power).hit tie with
      | some digits => ⟨digits, power⟩
      | none => coarsest tie i (power - 1) finer

end Interval

end Shortest

/-- The least number of digits that reads back as `x`, which is not zero. -/
def Binary64.Dyadic.shortest (tie : TieRule) (x : Binary64.Dyadic) : Decimal :=
  let i := Shortest.interval x
  let top := Decimal.digitCount (i.high / i.denominator)
  i.coarsest tie top (top + (-x.scale).toNat)

end GraphRequest
