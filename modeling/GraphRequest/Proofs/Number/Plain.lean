import GraphRequest.Number.FloatText
import GraphRequest.Proofs.Number.Digits
import GraphRequest.Proofs.Text.Solid

/-!
Numbers are written without white space and quotes.
-/

namespace GraphRequest

open Text

def isNumeric (c : Char) : Bool :=
  c.isDigit || c ∈ ['.', 'e', '-', '+', 'N', 'a', 'i', 'n', 'f']

abbrev Numeric (text : List Char) : Prop :=
  text.all isNumeric

theorem isNumeric_plain {c : Char} (numeric : isNumeric c) : isPlainChar c := by
  rw [isNumeric, Bool.or_eq_true, decide_eq_true_eq] at numeric
  rcases numeric with digit | sign
  · rw [Char.isDigit_iff_toNat] at digit
    have high : c.toNat ≤ 57 := digit.2
    exact isPlainChar_of_range digit.1 (by omega)
  · have signs : ['.', 'e', '-', '+', 'N', 'a', 'i', 'n', 'f'].all isPlainChar := by decide
    exact List.all_eq_true.mp signs c sign

namespace Numeric

variable {first second text : List Char}

theorem append (left : Numeric first) (right : Numeric second) : Numeric (first ++ second) := by
  rw [Numeric, List.all_append, left, right]
  rfl

theorem cons {c : Char} (numeric : isNumeric c) (rest : Numeric text) : Numeric (c :: text) := by
  rw [Numeric, List.all_cons, numeric, rest]
  rfl

theorem of_digits (digits : Json.Numeral.Digits text) : Numeric text := by
  apply List.all_eq_true.mpr
  intro c member
  rw [isNumeric, digits c member, Bool.true_or]

theorem toDigits (n : Nat) : Numeric (Nat.toDigits 10 n) :=
  of_digits (.toDigits n)

theorem solid (numeric : Numeric text) (present : text ≠ []) : Solid text where
  toKept := .of_plain (List.all_eq_true.mpr fun c member =>
    isNumeric_plain (List.all_eq_true.mp numeric c member))
  front := by
    cases text with
    | nil => exact absurd rfl present
    | cons c rest =>
        rw [Numeric, List.all_cons, Bool.and_eq_true] at numeric
        exact ⟨c, rfl, (isPlainChar_iff.mp (isNumeric_plain numeric.1)).1⟩

end Numeric

theorem solid_intRepr (value : Int) : Solid (Int.repr value).toList := by
  cases value with
  | ofNat n =>
      rw [Int.repr, Nat.toList_repr]
      exact (Numeric.toDigits n).solid Nat.toDigits_ne_nil
  | negSucc n =>
      rw [Int.repr, String.toList_append, Nat.toList_repr]
      exact (Numeric.append (by decide) (.toDigits _)).solid (by simp)

namespace FloatFormat

theorem positional_numeric (x : Decimal) : Numeric (positional x) := by
  have digits := Json.Numeral.Digits.toDigits x.digits
  have zeros (count : Int) : Numeric (zeros count) := .of_digits (.zeros _)
  rw [positional]
  split
  · exact (Numeric.append (.of_digits digits) (zeros _)).append (by decide)
  · split
    · refine .append (.of_digits fun c member => digits c (List.mem_of_mem_take member)) ?_
      exact .cons (by decide) (.of_digits fun c member => digits c (List.mem_of_mem_drop member))
    · exact (Numeric.append (by decide) (zeros _)).append (.of_digits digits)

theorem positional_ne_nil (x : Decimal) : positional x ≠ [] := by
  rw [positional]
  split
  · simp
  · split <;> simp

theorem scientific_numeric (plusSign : Bool) (x : Decimal) : Numeric (scientific plusSign x) := by
  have digits := Numeric.toDigits x.digits
  rw [scientific]
  refine .append ?_ (.cons (by decide) (.append ?_ (.toDigits _)))
  · split
    · next first second rest same =>
        rw [same, Numeric, List.all_cons, Bool.and_eq_true] at digits
        exact .cons digits.1 (.cons (by decide) digits.2)
    · exact digits
  · split
    · decide
    · split <;> decide

theorem scientific_ne_nil (plusSign : Bool) (x : Decimal) : scientific plusSign x ≠ [] := by
  simp [scientific]

theorem magnitudeText_numeric (format : FloatFormat) (x : Binary64.Dyadic) :
    Numeric (format.magnitudeText x) ∧ format.magnitudeText x ≠ [] := by
  rw [magnitudeText]
  split
  · decide
  · dsimp only
    split
    · exact ⟨positional_numeric _, positional_ne_nil _⟩
    · exact ⟨scientific_numeric _ _, scientific_ne_nil _ _⟩

theorem solid_text (format : FloatFormat) (value : Binary64) : Solid (format.text value).toList := by
  rw [text, String.toList_ofList]
  cases value with
  | nan =>
      have letters : Numeric ['N', 'a', 'N'] := by decide
      exact letters.solid (by decide)
  | infinite negative =>
      exact (Numeric.append (by cases negative <;> decide) (by decide)).solid (by simp)
  | finite negative exponent fraction =>
      obtain ⟨numeric, present⟩ := format.magnitudeText_numeric (Binary64.dyadic exponent fraction)
      exact (Numeric.append (by cases negative <;> decide) numeric).solid (by simp [present])

end FloatFormat

end GraphRequest
