import GraphRequest.Json.Writer
import GraphRequest.Proofs.Number.FloatText
import GraphRequest.Proofs.Number.Steps

/-!
Tokens that are floats. A short one is read as the nearest float; a longer one may be read as another
float than that which was written.
-/

namespace GraphRequest.Json

namespace Numeral

variable {n : Numeral}

theorem gather_ofDigits (front row : List Char)
    (fits : Decimal.ofDigits (front ++ row) < Nat.pow 2 64) :
    gather (Decimal.ofDigits front) row = (Decimal.ofDigits (front ++ row), []) := by
  induction row generalizing front with
  | nil => rw [gather, List.append_nil]
  | cons digit rest ih =>
      have longer : Decimal.ofDigits front * 10 + (digit.toNat - '0'.toNat) =
          Decimal.ofDigits (front ++ [digit]) := by
        rw [Decimal.ofDigits, Decimal.ofDigits, List.foldl_append]
        rfl
      rw [List.append_cons front digit rest] at fits ⊢
      have below : Decimal.ofDigits (front ++ [digit]) ≤
          Decimal.ofDigits (front ++ [digit] ++ rest) := by
        rw [Decimal.ofDigits_append (front ++ [digit])]
        exact le_trans (Nat.le_mul_of_pos_left _ (Nat.pow_pos (by decide))) (Nat.le_add_right _ _)
      rw [gather, longer, if_pos (lt_of_le_of_lt below fits), ih _ fits]

theorem truncated_eq (short : n.decimal.digits < Nat.pow 2 64) : n.truncated = n.decimal := by
  have whole : gather 0 n.whole = (Decimal.ofDigits n.whole, []) := by
    apply gather_ofDigits [] n.whole
    rw [List.nil_append]
    refine lt_of_le_of_lt ?_ short
    rw [decimal, Decimal.ofDigits_append]
    exact le_trans (Nat.le_mul_of_pos_left _ (Nat.pow_pos (by decide))) (Nat.le_add_right _ _)
  rw [truncated, whole]
  dsimp only
  rw [gather_ofDigits _ _ short, decimal]
  simp

/-- Digits of 53 bits with at most 22 places are read as the nearest float. -/
theorem float?_eq (short : n.decimal.digits < 2 ^ 53) (near : n.decimal.exponent.natAbs ≤ 22) :
    n.float? = if n.toBinary64.isFinite then some n.toBinary64 else none := by
  have steps := Binary64.ofDecimalInSteps_eq short near
  have fits : n.decimal.digits < Nat.pow 2 64 := lt_trans short (by decide)
  rw [float?, truncated_eq fits, steps, toBinary64]
  cases n.negative with
  | false => simp only [Bool.false_eq_true, if_false]
  | true => simp only [if_true, ← Binary64.neg_ofDecimal, Binary64.isFinite_neg]

end Numeral

/-- Whether a float is read from its text. -/
def readsBack (x : Binary64) : Bool :=
  (Numeral.read (floatFormat.chars x)).bind (·.1.float?) = some x

theorem isFinite_of_readsBack {x : Binary64} (back : readsBack x) : x.isFinite := by
  cases x with
  | nan => cases back
  | infinite negative => cases negative <;> cases back
  | finite negative exponent fraction => rfl

theorem numeral_of_readsBack {x : Binary64} (back : readsBack x) : ∃ numeral : Numeral,
    (∀ rest, Numeral.Ends rest → Numeral.read (floatFormat.chars x ++ rest) = some (numeral, rest)) ∧
      numeral.isInteger = false ∧ numeral.float? = some x := by
  cases x with
  | nan => cases back
  | infinite negative => cases negative <;> cases back
  | finite negative exponent fraction =>
      obtain ⟨numeral, read, decimal, -⟩ := floatFormat.read_chars negative exponent fraction
      have alone := read [] fun _ here => nomatch here
      rw [List.append_nil] at alone
      rw [readsBack, alone, decide_eq_true_iff] at back
      exact ⟨numeral, read, decimal, back⟩

theorem readsBack_of_short {x : Binary64} {numeral : Numeral} {rest : List Char} (finite : x.isFinite)
    (read : Numeral.read (floatFormat.chars x) = some (numeral, rest))
    (short : numeral.decimal.digits < 2 ^ 53) (near : numeral.decimal.exponent.natAbs ≤ 22) :
    readsBack x := by
  cases x with
  | nan => cases finite
  | infinite negative => cases finite
  | finite negative exponent fraction =>
      obtain ⟨other, reads, -, same⟩ := floatFormat.read_chars negative exponent fraction
      have alone := reads [] fun _ here => nomatch here
      rw [List.append_nil, read] at alone
      cases alone
      rw [readsBack, read, decide_eq_true_iff]
      exact (Numeral.float?_eq short near).trans (by rw [same]; rfl)

-- Digits of more than 53 bits may be read back or not.
example : readsBack (.ofDecimal false ⟨9680488278733528, -13⟩) = true := by decide +kernel
example : readsBack (.ofDecimal false ⟨9680488278733529, -13⟩) = false := by decide +kernel

end GraphRequest.Json
