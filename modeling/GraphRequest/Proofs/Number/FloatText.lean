import GraphRequest.Number.FloatText
import GraphRequest.Proofs.Number.Digits
import GraphRequest.Proofs.Number.Shortest

/-!
Numbers as they are written are read back as numerals: an integer as its digits, and a finite float as
a numeral with a point or an exponent that stands for the float.
-/

namespace GraphRequest

namespace Json.Numeral

/-- A numeral at the front of a text ends here. -/
def Ends (rest : List Char) : Prop :=
  ∀ c ∈ rest.head?, c.isDigit = false ∧ c ≠ '.' ∧ c ≠ 'e' ∧ c ≠ 'E'

/-- The digits of a whole number: no zero stands before other digits. -/
def Whole (digits : List Char) : Prop :=
  digits = ['0'] ∨ Digits digits ∧ digits ≠ [] ∧ digits.head? ≠ some '0'

variable {whole fraction rest : List Char} {negative : Bool}

theorem Ends.noDigit (ends : Ends rest) : NoDigit rest :=
  fun c here => (ends c here).1

theorem Ends.noPoint (ends : Ends rest) : rest.head? ≠ some '.' :=
  fun same => (ends '.' same).2.1 rfl

theorem Ends.noExponent (ends : Ends rest) : ∀ c ∈ rest.head?, c ≠ 'e' ∧ c ≠ 'E' :=
  fun c here => (ends c here).2.2

theorem Whole.toDigits (n : Nat) : Whole (Nat.toDigits 10 n) := by
  rcases Nat.eq_zero_or_pos n with rfl | positive
  · exact .inl rfl
  · exact .inr ⟨.toDigits n, Nat.toDigits_ne_nil, Decimal.head?_toDigits positive⟩

theorem readWhole_of_whole (spelled : Whole whole) (stops : NoDigit rest) :
    readWhole (whole ++ rest) = some (whole, rest) := by
  rcases spelled with rfl | ⟨all, present, first⟩
  · rfl
  · exact readWhole_digits all stops present first

theorem readUnsigned_whole (spelled : Whole whole) (ends : Ends rest) :
    readUnsigned negative (whole ++ rest) = some (⟨negative, whole, none, none⟩, rest) :=
  readUnsigned_parts (readWhole_of_whole spelled ends.noDigit) (readFraction_none ends.noPoint)
    (readExponent_none ends.noExponent)

theorem readUnsigned_point (spelled : Whole whole) (all : Digits fraction) (present : fraction ≠ [])
    (ends : Ends rest) : readUnsigned negative (whole ++ '.' :: (fraction ++ rest)) =
      some (⟨negative, whole, some fraction, none⟩, rest) := by
  have stops : NoDigit ('.' :: (fraction ++ rest)) := by
    intro c here
    cases here
    rfl
  exact readUnsigned_parts (readWhole_of_whole spelled stops)
    (readFraction_digits all ends.noDigit present) (readExponent_none ends.noExponent)

def Reads (text : List Char) (value : ℚ) : Prop :=
  ∀ negative, ∃ numeral : Numeral,
    (∀ rest, Ends rest → readUnsigned negative (text ++ rest) = some (numeral, rest)) ∧
      numeral.negative = negative ∧ numeral.isInteger = false ∧ numeral.decimal.value = value

theorem reads_point (whole fraction : List Char) {value : ℚ} (spelled : Whole whole) (all : Digits fraction)
    (present : fraction ≠ [])
    (same : (Decimal.mk (Decimal.ofDigits (whole ++ fraction)) (-fraction.length)).value = value) :
    Reads (whole ++ '.' :: fraction) value := by
  intro negative
  refine ⟨⟨negative, whole, some fraction, none⟩, fun rest ends => ?_, rfl, rfl, ?_⟩
  · rw [List.append_assoc, List.cons_append]
    exact readUnsigned_point spelled all present ends
  · rw [← same, decimal]
    simp

end Json.Numeral

namespace FloatFormat

open Json.Numeral

theorem value_shifted {x : Decimal} {digits : Nat} {exponent : Int} (count : Nat)
    (shifted : digits = 10 ^ count * x.digits) (same : exponent + count = x.exponent) :
    (Decimal.mk digits exponent).value = x.value := by
  have ten : (10 : ℚ) ≠ 0 := by norm_num
  rw [Decimal.value, Decimal.value, shifted, ← same, zpow_add₀ ten, zpow_natCast]
  push_cast
  ring

theorem reads_positional {x : Decimal} (positive : 0 < x.digits) : Reads (positional x) x.value := by
  have digits := Digits.toDigits x.digits
  have head := Decimal.head?_toDigits positive
  have value := Decimal.ofDigits_toDigits x.digits
  have nonempty : Nat.toDigits 10 x.digits ≠ [] := Nat.toDigits_ne_nil
  rw [positional]
  generalize Nat.toDigits 10 x.digits = row at digits head value nonempty
  split
  · next whole =>
      obtain ⟨count, same⟩ := Int.eq_ofNat_of_zero_le whole
      rw [same, zeros, Int.toNat_natCast]
      refine reads_point _ _ (.inr ⟨digits.append (.zeros count), ?_, ?_⟩) (.zeros 1) (by decide) ?_
      · exact List.append_ne_nil_of_left_ne_nil nonempty _
      · rw [List.head?_append]
        cases row with
        | nil => exact absurd rfl nonempty
        | cons digit more => exact head
      · apply value_shifted (count + 1)
        · have last : Decimal.ofDigits ['0'] = 0 := rfl
          rw [Decimal.ofDigits_append, Decimal.ofDigits_append, Decimal.ofDigits_replicate_zero, last,
            value, List.length_replicate, List.length_singleton]
          ring
        · rw [same, List.length_singleton]
          push_cast
          ring
  · next fractional =>
      split
      · next inside =>
          obtain ⟨point, same⟩ := Int.eq_ofNat_of_zero_le inside.le
          rw [same, Int.toNat_natCast]
          have positive : 0 < point := by omega
          have fewer : point < row.length := by omega
          refine reads_point _ _ (.inr ⟨?_, ?_, ?_⟩) ?_ ?_ ?_
          · exact fun c member => digits c (List.mem_of_mem_take member)
          · simp [List.take_eq_nil_iff, positive.ne', nonempty]
          · rwa [List.head?_take, if_neg positive.ne']
          · exact fun c member => digits c (List.mem_of_mem_drop member)
          · rw [Ne, List.drop_eq_nil_iff]
            omega
          · apply value_shifted 0
            · rw [List.take_append_drop, value, pow_zero, one_mul]
            · rw [List.length_drop]
              omega
      · next small =>
          obtain ⟨count, same⟩ := Int.eq_ofNat_of_zero_le (show 0 ≤ -(row.length + x.exponent) by omega)
          rw [same, zeros, Int.toNat_natCast]
          refine reads_point ['0'] (List.replicate count '0' ++ row) (.inl rfl)
            (.append (.zeros count) digits) (List.append_ne_nil_of_right_ne_nil _ nonempty) ?_
          apply value_shifted 0
          · rw [← List.append_assoc, Decimal.ofDigits_append, value, pow_zero, one_mul]
            have vanishes : Decimal.ofDigits (['0'] ++ List.replicate count '0') = 0 :=
              Decimal.ofDigits_replicate_zero (count + 1)
            rw [vanishes, Nat.mul_zero, Nat.zero_add]
          · rw [List.length_append, List.length_replicate]
            omega

theorem reads_scientific (plusSign : Bool) {x : Decimal} (positive : 0 < x.digits) :
    Reads (scientific plusSign x) x.value := by
  have digits := Digits.toDigits x.digits
  have head := Decimal.head?_toDigits positive
  have value := Decimal.ofDigits_toDigits x.digits
  have nonempty : Nat.toDigits 10 x.digits ≠ [] := Nat.toDigits_ne_nil
  have magnitude : x.magnitude = (Nat.toDigits 10 x.digits).length + x.exponent - 1 := rfl
  intro negative
  have power (rest : List Char) (ends : Ends rest) :=
    readExponent_power plusSign x.magnitude ends.noDigit
  have stops : ∀ {c : Char} {text : List Char}, c.isDigit = false → NoDigit (c :: text) := by
    intro c text other d here
    cases here
    exact other
  rw [scientific]
  generalize Nat.toDigits 10 x.digits = row at digits head value nonempty magnitude
  simp only [List.append_assoc, List.cons_append]
  match row with
  | [] => exact absurd rfl nonempty
  | [digit] =>
      refine ⟨⟨negative, [digit], none, some x.magnitude⟩, fun rest ends => ?_, rfl, rfl, ?_⟩
      · exact readUnsigned_parts (readWhole_of_whole (.inr ⟨digits, nonempty, head⟩) (stops rfl))
          (readFraction_none (by rw [List.head?_cons]; decide)) (power rest ends)
      · apply value_shifted 0
        · rw [pow_zero, one_mul]
          exact value
        · rw [magnitude]
          simp
  | digit :: second :: more =>
      refine ⟨⟨negative, [digit], some (second :: more), some x.magnitude⟩, fun rest ends => ?_, rfl,
        rfl, ?_⟩
      · have single : Digits [digit] := fun c member => digits c (by simp_all)
        have others : Digits (second :: more) := fun c member => digits c (List.mem_cons_of_mem _ member)
        exact readUnsigned_parts (readWhole_of_whole (.inr ⟨single, by simp, head⟩) (stops rfl))
          (readFraction_digits others (stops rfl) (by simp)) (power rest ends)
      · apply value_shifted 0
        · rw [pow_zero, one_mul]
          exact value
        · rw [magnitude]
          simp only [Option.getD_some, List.length_cons]
          push_cast
          ring

theorem read_signed {negative : Bool} {text : List Char} {result : Json.Numeral × List Char}
    (unsigned : readUnsigned negative text = some result) :
    Json.Numeral.read (signText negative ++ text) = some result := by
  cases negative with
  | true => exact unsigned
  | false =>
      rw [signText, if_neg Bool.false_ne_true, List.nil_append, Json.Numeral.read]
      · exact unsigned
      · intro rest same
        rw [same] at unsigned
        cases unsigned

theorem read_intRepr (value : Int) {rest : List Char} (ends : Ends rest) :
    Json.Numeral.read ((Int.repr value).toList ++ rest) =
      some (⟨value < 0, Nat.toDigits 10 value.natAbs, none, none⟩, rest) := by
  have read (negative : Bool) (n : Nat) :=
    read_signed (@readUnsigned_whole _ _ negative (.toDigits n) ends)
  cases value with
  | ofNat n =>
      rw [Int.repr, Nat.toList_repr]
      exact read false n
  | negSucc n =>
      rw [Int.repr, String.toList_append, Nat.toList_repr, List.append_assoc,
        decide_eq_true (Int.negSucc_lt_zero n)]
      exact read true (n + 1)

theorem start_of_read {text : List Char} {result : Json.Numeral × List Char}
    (reads : Json.Numeral.read text = some result) :
    ∃ c more, text = c :: more ∧ (c = '-' ∨ c.isDigit) := by
  cases text with
  | nil => cases reads
  | cons c more =>
      refine ⟨c, more, rfl, ?_⟩
      by_cases sign : c = '-'
      · exact .inl sign
      · right
        by_contra other
        have zero : c ≠ '0' := by
          rintro rfl
          exact other rfl
        have none : readWhole (c :: more) = none := by
          simp [readWhole, splitDigits, zero, other]
        have unsigned : Json.Numeral.read (c :: more) = readUnsigned false (c :: more) := by
          rw [Json.Numeral.read]
          intro rest same
          exact sign (List.cons.inj same).1
        rw [unsigned, readUnsigned, none] at reads
        cases reads

theorem reads_zero : Reads ['0', '.', '0'] 0 := by
  apply reads_point ['0'] ['0'] (.inl rfl) (.zeros 1) (by decide)
  have digits : Decimal.ofDigits (['0'] ++ ['0']) = 0 := rfl
  rw [Decimal.value, digits, Nat.cast_zero, zero_mul]

/-- Wherever it may end, the text of a finite float reads as one numeral, which is no integer and
stands for the float. -/
theorem read_chars (format : FloatFormat) (negative : Bool) (exponent : Fin 2047)
    (fraction : Fin (2 ^ 52)) :
    ∃ numeral, (∀ rest, Ends rest →
        Json.Numeral.read (format.chars (.finite negative exponent fraction) ++ rest) =
          some (numeral, rest)) ∧
      numeral.isInteger = false ∧ numeral.toBinary64 = .finite negative exponent fraction := by
  simp only [chars, List.append_assoc]
  rw [magnitudeText]
  split
  · next vanishes =>
      obtain ⟨numeral, unsigned, rfl, decimal, value⟩ := reads_zero negative
      refine ⟨numeral, fun rest ends => read_signed (unsigned rest ends), decimal, ?_⟩
      rw [toBinary64, Binary64.ofDecimal_zero _ value, Binary64.finite_of_significand_zero _ vanishes]
  · next nonzero =>
      have covers := Binary64.Dyadic.covers_shortest format.tie nonzero
      have positive := Decimal.digits_pos_of_value (covers.positive nonzero)
      have reads : Reads (if format.least ≤ ((Binary64.dyadic exponent fraction).shortest
            format.tie).magnitude && ((Binary64.dyadic exponent fraction).shortest
            format.tie).magnitude < format.limit
          then positional ((Binary64.dyadic exponent fraction).shortest format.tie)
          else scientific format.plusSign ((Binary64.dyadic exponent fraction).shortest format.tie))
          ((Binary64.dyadic exponent fraction).shortest format.tie).value := by
        split
        · exact reads_positional positive
        · exact reads_scientific format.plusSign positive
      obtain ⟨numeral, unsigned, rfl, decimal, value⟩ := reads negative
      refine ⟨numeral, fun rest ends => read_signed (unsigned rest ends), decimal, ?_⟩
      exact Binary64.ofDecimal_of_covers _ _ _ (value ▸ covers) nonzero

end FloatFormat

end GraphRequest
