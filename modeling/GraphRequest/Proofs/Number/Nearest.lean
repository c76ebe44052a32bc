import GraphRequest.Proofs.Number.Rounding

/-!
A decimal that lies between the points halfway to the neighbours of a finite number reads as this
number.
-/

namespace GraphRequest

namespace Decimal

def value (x : Decimal) : ℚ :=
  x.digits * 10 ^ x.exponent

theorem digitCount_bounds {n : Nat} (positive : 0 < n) :
    (10 : ℚ) ^ ((digitCount n : Int) - 1) ≤ n ∧ (n : ℚ) < 10 ^ (digitCount n : Int) := by
  have some : 0 < digitCount n := Nat.length_toDigits_pos
  obtain ⟨k, count⟩ := Nat.exists_eq_succ_of_ne_zero some.ne'
  have above : n < 10 ^ digitCount n :=
    (Nat.length_toDigits_le_iff (by decide) some).mp (le_refl _)
  have below : 10 ^ k ≤ n := by
    by_contra less
    rcases Nat.eq_zero_or_pos k with rfl | larger
    · simp at less
      omega
    · have fewer : digitCount n ≤ k :=
        (Nat.length_toDigits_le_iff (by decide) larger).mpr (Nat.lt_of_not_le less)
      omega
  have lower : (digitCount n : Int) - 1 = (k : Int) := by omega
  rw [lower, zpow_natCast, zpow_natCast]
  exact ⟨by exact_mod_cast below, by exact_mod_cast above⟩

theorem digits_pos_of_value {x : Decimal} (positive : 0 < x.value) : 0 < x.digits := by
  rcases Nat.eq_zero_or_pos x.digits with none | some
  · rw [value, none, Nat.cast_zero, zero_mul] at positive
    exact absurd positive (lt_irrefl 0)
  · exact some

theorem value_bounds {x : Decimal} (positive : 0 < x.digits) :
    (10 : ℚ) ^ x.magnitude ≤ x.value ∧ x.value < 10 ^ (x.magnitude + 1) := by
  obtain ⟨lower, upper⟩ := digitCount_bounds positive
  have ten : (10 : ℚ) ≠ 0 := by norm_num
  have unit : (0 : ℚ) < 10 ^ x.exponent := by positivity
  have first : (10 : ℚ) ^ x.magnitude = 10 ^ ((digitCount x.digits : Int) - 1) * 10 ^ x.exponent := by
    rw [← zpow_add₀ ten, magnitude]
    congr 1
    omega
  have second : (10 : ℚ) ^ (x.magnitude + 1) = 10 ^ (digitCount x.digits : Int) * 10 ^ x.exponent := by
    rw [← zpow_add₀ ten, magnitude]
    congr 1
    omega
  rw [first, second, value]
  exact ⟨by gcongr, by gcongr⟩

end Decimal

namespace Binary64

theorem two_pow_lt_ten_pow : (2 : ℚ) ^ 1075 < 10 ^ 330 :=
  calc (2 : ℚ) ^ 1075 ≤ 2 ^ (99 * 11) := pow_le_pow_right₀ one_le_two (by decide)
    _ = (2 ^ 99) ^ 11 := pow_mul 2 99 11
    _ < (10 ^ 30) ^ 11 := pow_lt_pow_left₀ (by norm_num) (by positivity) (by decide)
    _ = 10 ^ 330 := (pow_mul 10 30 11).symm

theorem two_pow_lt_ten_pow' : (2 : ℚ) ^ 1024 < 10 ^ 310 :=
  calc (2 : ℚ) ^ 1024 ≤ 2 ^ (205 * 5) := pow_le_pow_right₀ one_le_two (by decide)
    _ = (2 ^ 205) ^ 5 := pow_mul 2 205 5
    _ < (10 ^ 62) ^ 5 := pow_lt_pow_left₀ (by norm_num) (by positivity) (by decide)
    _ = 10 ^ 310 := (pow_mul 10 62 5).symm

theorem Dyadic.Covers.range {exponent : Fin 2047} {fraction : Fin (2 ^ 52)} {ratio : ℚ}
    (covers : (dyadic exponent fraction).Covers ratio)
    (nonzero : (dyadic exponent fraction).significand ≠ 0) :
    (10 : ℚ) ^ (-330 : Int) < ratio ∧ ratio < 10 ^ (310 : Int) := by
  obtain ⟨small, least, most, -⟩ := dyadic_bounds exponent fraction
  generalize dyadic exponent fraction = x at covers nonzero small least most
  have reach := x.reach_le
  have one : (1 : ℚ) ≤ x.significand := by exact_mod_cast Nat.one_le_iff_ne_zero.mpr nonzero
  have bound : (x.significand : ℚ) + 1 ≤ 2 ^ 53 := by exact_mod_cast small
  have bottom : (2 : ℚ) ^ (-1074 : Int) ≤ 2 ^ x.scale := zpow_le_zpow_right₀ one_le_two least
  have top : (2 : ℚ) ^ x.scale ≤ 2 ^ (971 : Int) := zpow_le_zpow_right₀ one_le_two most
  constructor
  · calc (10 : ℚ) ^ (-330 : Int) < 2 ^ (-1075 : Int) := by
          rw [zpow_neg, zpow_neg]
          exact (inv_lt_inv₀ (by positivity) (by positivity)).mpr two_pow_lt_ten_pow
      _ = 1 / 2 * 2 ^ (-1074 : Int) := by
          rw [one_div, ← zpow_neg_one, ← zpow_add₀ two_ne_zero]
          rfl
      _ ≤ (x.significand - x.reach) * 2 ^ x.scale :=
          mul_le_mul (by linarith only [reach, one]) bottom (by positivity)
            (by linarith only [reach, one])
      _ ≤ ratio := covers.lower
  · calc ratio ≤ (x.significand + 1 / 2) * 2 ^ x.scale := covers.upper
      _ ≤ 2 ^ (53 : Int) * 2 ^ (971 : Int) :=
          mul_le_mul (le_trans (by norm_num) bound) top (by positivity) (by positivity)
      _ = 2 ^ (1024 : Int) := by
          rw [← zpow_add₀ two_ne_zero]
          rfl
      _ < 10 ^ (310 : Int) := two_pow_lt_ten_pow'

theorem Dyadic.Covers.positive {exponent : Fin 2047} {fraction : Fin (2 ^ 52)} {ratio : ℚ}
    (covers : (dyadic exponent fraction).Covers ratio)
    (nonzero : (dyadic exponent fraction).significand ≠ 0) : 0 < ratio :=
  lt_trans (by positivity) (covers.range nonzero).1

theorem ofDecimal_of_covers (negative : Bool) {x : Decimal} (exponent : Fin 2047)
    (fraction : Fin (2 ^ 52)) (covers : (dyadic exponent fraction).Covers x.value)
    (nonzero : (dyadic exponent fraction).significand ≠ 0) :
    ofDecimal negative x = finite negative exponent fraction := by
  obtain ⟨tiny, huge⟩ := covers.range nonzero
  have positive : 0 < x.digits := Decimal.digits_pos_of_value (covers.positive nonzero)
  obtain ⟨lower, upper⟩ := Decimal.value_bounds positive
  have ten : (1 : ℚ) < 10 := by norm_num
  have above : -330 < x.magnitude + 1 := (zpow_lt_zpow_iff_right₀ ten).mp (tiny.trans upper)
  have below : x.magnitude < 310 := (zpow_lt_zpow_iff_right₀ ten).mp (lower.trans_lt huge)
  have inRange : ¬(decide (x.digits = 0) || decide (x.magnitude < -330)) = true := by
    simp only [Bool.or_eq_true, decide_eq_true_eq]
    omega
  rw [ofDecimal, if_neg inRange, if_neg (by omega), Nat.pow_eq, Nat.pow_eq]
  split
  · next whole =>
      obtain ⟨power, same⟩ := Int.eq_ofNat_of_zero_le whole
      apply ofRatio_of_covers negative (by positivity) Nat.one_pos exponent fraction
      rw [Decimal.value, same, zpow_natCast] at covers
      rw [same, Int.toNat_natCast, Nat.cast_one, div_one]
      exact_mod_cast covers
  · next fractional =>
      obtain ⟨power, same⟩ := Int.eq_ofNat_of_zero_le (show 0 ≤ -x.exponent by omega)
      apply ofRatio_of_covers negative positive (by positivity) exponent fraction
      have opposite : x.exponent = -(power : Int) := by omega
      rw [Decimal.value, opposite, zpow_neg, zpow_natCast, ← div_eq_mul_inv] at covers
      rw [same, Int.toNat_natCast]
      exact_mod_cast covers

theorem ofDecimal_zero (negative : Bool) {x : Decimal} (vanishes : x.value = 0) :
    ofDecimal negative x = zero negative := by
  have unit : (10 : ℚ) ^ x.exponent ≠ 0 := by positivity
  rw [Decimal.value] at vanishes
  have digits : x.digits = 0 := by
    exact_mod_cast (mul_eq_zero.mp vanishes).resolve_right unit
  rw [ofDecimal, if_pos (by rw [digits]; rfl)]

theorem finite_of_significand_zero (negative : Bool) {exponent : Fin 2047} {fraction : Fin (2 ^ 52)}
    (vanishes : (dyadic exponent fraction).significand = 0) :
    finite negative exponent fraction = zero negative := by
  have power : Nat.pow 2 52 = 2 ^ 52 := rfl
  rw [dyadic] at vanishes
  split at vanishes
  · next least =>
      rw [zero, show exponent = 0 from Fin.ext least, show fraction = 0 from Fin.ext vanishes]
  · exact absurd vanishes (by dsimp only; omega)

end Binary64

end GraphRequest
