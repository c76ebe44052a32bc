import GraphRequest.Json.Basic
import GraphRequest.Number.Arithmetic

/-!
Number tokens of JSON: their grammar, and the number that a token stands for.
-/

namespace GraphRequest.Json

structure Numeral where
  negative : Bool
  whole : List Char
  fraction : Option (List Char)
  exponent : Option Int
  deriving DecidableEq, Repr

namespace Numeral

def splitDigits (text : List Char) : List Char × List Char :=
  (text.takeWhile Char.isDigit, text.dropWhile Char.isDigit)

/-- At least one digit, and none after a leading zero. -/
def readWhole : List Char → Option (List Char × List Char)
  | '0' :: rest => some (['0'], rest)
  | text => match splitDigits text with
    | ([], _) => none
    | parts => some parts

def readFraction : List Char → Option (Option (List Char) × List Char)
  | '.' :: rest => match splitDigits rest with
    | ([], _) => none
    | (digits, rest) => some (some digits, rest)
  | text => some (none, text)

def readPower (negative : Bool) (text : List Char) : Option (Option Int × List Char) :=
  match splitDigits text with
  | ([], _) => none
  | (digits, rest) =>
      let power : Int := Decimal.ofDigits digits
      some (some (if negative then -power else power), rest)

def readExponent : List Char → Option (Option Int × List Char)
  | c :: rest =>
      if c = 'e' || c = 'E' then
        match rest with
        | '-' :: rest => readPower true rest
        | '+' :: rest => readPower false rest
        | rest => readPower false rest
      else some (none, c :: rest)
  | [] => some (none, [])

def readUnsigned (negative : Bool) (text : List Char) : Option (Numeral × List Char) := do
  let (whole, text) ← readWhole text
  let (fraction, text) ← readFraction text
  let (exponent, text) ← readExponent text
  some (⟨negative, whole, fraction, exponent⟩, text)

def read : List Char → Option (Numeral × List Char)
  | '-' :: rest => readUnsigned true rest
  | text => readUnsigned false text

def isInteger (n : Numeral) : Bool :=
  n.fraction.isNone && n.exponent.isNone

/-- Adds digits to a number as long as it fits into 64 bits, and gives the digits that are left. -/
def gather (number : Nat) : List Char → Nat × List Char
  | [] => (number, [])
  | digit :: rest =>
      let longer := number * 10 + (digit.toNat - '0'.toNat)
      if longer < Nat.pow 2 64 then gather longer rest else (number, digit :: rest)

/-- The digits that fit into 64 bits. Those left before the point count as places, and those left
behind it do not count. -/
def truncated (n : Numeral) : Decimal :=
  let fraction := n.fraction.getD []
  let (whole, left) := gather 0 n.whole
  let (digits, dropped) := gather whole fraction
  ⟨digits, n.exponent.getD 0 + left.length - (fraction.length - dropped.length)⟩

def float? (n : Numeral) : Option Binary64 :=
  let size := Binary64.ofDecimalInSteps n.truncated
  if size.isFinite then some (if n.negative then size.neg else size) else none

/-- Whole numbers from `-2 ^ 63` to `2 ^ 64 - 1` are integers, other numbers and a negative zero
are floats. -/
def value (n : Numeral) : Option Json :=
  let magnitude := Decimal.ofDigits n.whole
  if n.isInteger && !n.negative && magnitude < Nat.pow 2 64 then some (.integer magnitude)
  else if n.isInteger && n.negative && magnitude ≠ 0 && magnitude ≤ Nat.pow 2 63 then
    some (.integer (-(magnitude : Int)))
  else n.float?.map .float

end Numeral

end GraphRequest.Json
