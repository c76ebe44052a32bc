import GraphRequest.Json.Numeral
import Mathlib.Algebra.Group.Nat.Defs

/-!
Rows of digits and the parts of a numeral: each part is read off the front of a text, provided that
the rest of the text does not go on with it.
-/

namespace GraphRequest

namespace Decimal

theorem ofDigits_eq (digits : List Char) : ofDigits digits = Nat.ofDigitChars 10 digits 0 := by
  rw [ofDigits, Nat.ofDigitChars_eq_foldl]
  congr 1
  funext value digit
  rw [Nat.mul_comm]

theorem ofDigits_append (first second : List Char) :
    ofDigits (first ++ second) = 10 ^ second.length * ofDigits first + ofDigits second := by
  simp only [ofDigits_eq]
  rw [Nat.ofDigitChars_append, Nat.ofDigitChars_eq_ofDigitChars_zero]

theorem ofDigits_toDigits (n : Nat) : ofDigits (Nat.toDigits 10 n) = n := by
  rw [ofDigits_eq, Nat.ofDigitChars_ten_toDigits]

theorem ofDigits_replicate_zero (count : Nat) : ofDigits (List.replicate count '0') = 0 := by
  rw [ofDigits_eq, Nat.ofDigitChars_replicate_zero, Nat.mul_zero]

theorem head?_toDigits {n : Nat} (positive : 0 < n) : (Nat.toDigits 10 n).head? ≠ some '0' := by
  induction n using Nat.strongRecOn with
  | ind n ih =>
      rw [Nat.toDigits_eq_if (by decide)]
      split
      · next small =>
          rw [List.head?_cons]
          intro same
          have digit := Nat.toNat_digitChar_sub_48_of_lt_ten small
          rw [Option.some.inj same] at digit
          exact Nat.ne_of_lt positive digit
      · next large =>
          have first := ih (n / 10) (by omega) (by omega)
          have present : Nat.toDigits 10 (n / 10) ≠ [] := Nat.toDigits_ne_nil
          revert first present
          cases Nat.toDigits 10 (n / 10) with
          | nil => intro _ present; exact absurd rfl present
          | cons digit rest => intro first _; exact first

end Decimal

namespace Json.Numeral

def decimal (n : Numeral) : Decimal :=
  ⟨Decimal.ofDigits (n.whole ++ n.fraction.getD []), n.exponent.getD 0 - (n.fraction.getD []).length⟩

/-- The float nearest to the number that is spelled, which is what source text means by it. Of JSON
it is the meaning only where `float?` agrees. -/
def toBinary64 (n : Numeral) : Binary64 :=
  Binary64.ofDecimal n.negative n.decimal

def Digits (text : List Char) : Prop :=
  ∀ c ∈ text, c.isDigit

def NoDigit (rest : List Char) : Prop :=
  ∀ c ∈ rest.head?, c.isDigit = false

theorem Digits.toDigits (n : Nat) : Digits (Nat.toDigits 10 n) := fun _ member =>
  Nat.isDigit_of_mem_toDigits (by decide) (by decide) member

theorem Digits.append {first second : List Char} (left : Digits first) (right : Digits second) :
    Digits (first ++ second) := by
  intro c member
  rcases List.mem_append.mp member with early | late
  · exact left c early
  · exact right c late

theorem Digits.zeros (count : Nat) : Digits (List.replicate count '0') := by
  intro c member
  rw [List.eq_of_mem_replicate member]
  rfl

variable {digits rest : List Char}

theorem splitDigits_append (all : Digits digits) (stops : NoDigit rest) :
    splitDigits (digits ++ rest) = (digits, rest) := by
  have front : rest.takeWhile Char.isDigit = [] ∧ rest.dropWhile Char.isDigit = rest := by
    cases rest with
    | nil => exact ⟨rfl, rfl⟩
    | cons c rest =>
        have stop := stops c rfl
        simp [stop]
  rw [splitDigits, List.takeWhile_append_of_pos all, List.dropWhile_append_of_pos all, front.1,
    front.2, List.append_nil]

theorem readWhole_digits (all : Digits digits) (stops : NoDigit rest) (present : digits ≠ [])
    (first : digits.head? ≠ some '0') : readWhole (digits ++ rest) = some (digits, rest) := by
  cases digits with
  | nil => exact absurd rfl present
  | cons digit more =>
      have other : digit ≠ '0' := fun same => first (by rw [same, List.head?_cons])
      have parts := splitDigits_append all stops
      rw [readWhole]
      · rw [parts]
      · intro others same
        exact other (List.cons.inj same).1

theorem readFraction_digits (all : Digits digits) (stops : NoDigit rest) (present : digits ≠ []) :
    readFraction ('.' :: (digits ++ rest)) = some (some digits, rest) := by
  rw [readFraction, splitDigits_append all stops]
  cases digits with
  | nil => exact absurd rfl present
  | cons digit more => rfl

theorem readFraction_none (stops : rest.head? ≠ some '.') :
    readFraction rest = some (none, rest) := by
  rw [readFraction]
  intro others same
  rw [same] at stops
  exact stops rfl

theorem readPower_digits (negative : Bool) (all : Digits digits) (stops : NoDigit rest)
    (present : digits ≠ []) : readPower negative (digits ++ rest) =
      some (some (if negative then -(Decimal.ofDigits digits : Int) else Decimal.ofDigits digits),
        rest) := by
  rw [readPower, splitDigits_append all stops]
  cases digits with
  | nil => exact absurd rfl present
  | cons digit more => rfl

theorem readExponent_none (stops : ∀ c ∈ rest.head?, c ≠ 'e' ∧ c ≠ 'E') :
    readExponent rest = some (none, rest) := by
  cases rest with
  | nil => rfl
  | cons c rest =>
      obtain ⟨lower, upper⟩ := stops c rfl
      unfold readExponent
      dsimp only
      rw [if_neg (by simp [lower, upper])]

def powerSign (plusSign : Bool) (power : Int) : List Char :=
  if power < 0 then ['-'] else if plusSign then ['+'] else []

theorem readExponent_power (plusSign : Bool) (power : Int) (stops : NoDigit rest) :
    readExponent ('e' :: (powerSign plusSign power ++ (Nat.toDigits 10 power.natAbs ++ rest))) =
      some (some power, rest) := by
  have all := Digits.toDigits power.natAbs
  have present : Nat.toDigits 10 power.natAbs ≠ [] := Nat.toDigits_ne_nil
  have digits := Decimal.ofDigits_toDigits power.natAbs
  have minus := readPower_digits true all stops present
  have plus := readPower_digits false all stops present
  rw [digits] at minus plus
  by_cases negative : power < 0
  · have same : -(power.natAbs : Int) = power := by omega
    rw [if_pos rfl, same] at minus
    rw [powerSign, if_pos negative]
    exact minus
  · have same : (power.natAbs : Int) = power := by omega
    rw [if_neg Bool.false_ne_true, same] at plus
    rw [powerSign, if_neg negative]
    cases plusSign with
    | true => exact plus
    | false =>
        have first : ∀ c ∈ (Nat.toDigits 10 power.natAbs ++ rest).head?, c.isDigit := by
          revert all present
          cases Nat.toDigits 10 power.natAbs with
          | nil => intro _ present; exact absurd rfl present
          | cons digit more =>
              intro all _ c here
              cases here
              exact all digit List.mem_cons_self
        rw [if_neg Bool.false_ne_true, List.nil_append]
        unfold readExponent
        dsimp only
        rw [if_pos (by decide)]
        split
        · next others same =>
            rw [same] at first
            exact absurd (first '-' rfl) (by decide)
        · next others same =>
            rw [same] at first
            exact absurd (first '+' rfl) (by decide)
        · exact plus

theorem readUnsigned_parts {negative : Bool} {text afterWhole afterFraction whole : List Char}
    {fraction : Option (List Char)} {exponent : Option Int}
    (first : readWhole text = some (whole, afterWhole))
    (second : readFraction afterWhole = some (fraction, afterFraction))
    (third : readExponent afterFraction = some (exponent, rest)) :
    readUnsigned negative text = some (⟨negative, whole, fraction, exponent⟩, rest) := by
  rw [readUnsigned, first, Option.bind_eq_bind, Option.bind_some]
  dsimp only
  rw [second, Option.bind_eq_bind, Option.bind_some]
  dsimp only
  rw [third]
  rfl

end Json.Numeral

end GraphRequest
