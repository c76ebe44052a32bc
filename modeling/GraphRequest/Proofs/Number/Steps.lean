import GraphRequest.Number.Arithmetic
import GraphRequest.Proofs.Number.Nearest

/-!
Products and quotients are the exact ones, rounded. A decimal whose digits and whose power of ten are
floats by themselves takes a single rounding, so reading it in steps gives the nearest number.
-/

namespace GraphRequest.Binary64

section Ratios

theorem roundRatio_scale (numerator denominator : Nat) {factor : Nat} (positive : 0 < factor) :
    roundRatio (numerator * factor) (denominator * factor) = roundRatio numerator denominator := by
  rw [roundRatio, roundRatio, Nat.mul_div_mul_right _ _ positive, Nat.mul_mod_mul_right,
    ← Nat.mul_assoc]
  simp only [Nat.mul_lt_mul_right positive]

variable {numerator denominator numerator' denominator' : Nat}

theorem roundRatio_congr (positive : 0 < denominator) (positive' : 0 < denominator')
    (same : numerator * denominator' = numerator' * denominator) :
    roundRatio numerator denominator = roundRatio numerator' denominator' := by
  calc
    roundRatio numerator denominator
      = roundRatio (numerator * denominator') (denominator * denominator') :=
        (roundRatio_scale _ _ positive').symm
    _ = roundRatio (numerator' * denominator) (denominator' * denominator) := by
        rw [same, Nat.mul_comm denominator]
    _ = roundRatio numerator' denominator' := roundRatio_scale _ _ positive

theorem ofRatio_congr (negative : Bool) (positive : 0 < denominator) (positive' : 0 < denominator')
    (same : (numerator : ℚ) / denominator = numerator' / denominator') :
    ofRatio negative numerator denominator = ofRatio negative numerator' denominator' := by
  have below : (denominator : ℚ) ≠ 0 := by exact_mod_cast positive.ne'
  have below' : (denominator' : ℚ) ≠ 0 := by exact_mod_cast positive'.ne'
  by_cases vanishes : numerator = 0
  · have vanishes' : numerator' = 0 := by
      rw [vanishes, Nat.cast_zero, zero_div, eq_comm, div_eq_zero_iff] at same
      exact_mod_cast same.resolve_right below'
    rw [ofRatio, ofRatio, if_pos vanishes, if_pos vanishes']
  · have above : 0 < numerator := Nat.pos_of_ne_zero vanishes
    have present : numerator' ≠ 0 := by
      rintro rfl
      rw [Nat.cast_zero, zero_div, div_eq_zero_iff] at same
      exact vanishes (by exact_mod_cast same.resolve_right below)
    have above' : 0 < numerator' := Nat.pos_of_ne_zero present
    obtain ⟨lower, upper⟩ := log2Ratio_bounds above' positive'
    rw [← same] at lower upper
    rw [ofRatio, ofRatio, if_neg vanishes, if_neg present, log2Ratio_eq above positive lower upper]
    generalize max (log2Ratio numerator' denominator' - 52) (-1074) = scale
    have first := scaleRatio_eq numerator denominator scale
    have second := scaleRatio_eq numerator' denominator' scale
    have some := scaleRatio_pos numerator positive scale
    have some' := scaleRatio_pos numerator' positive' scale
    have cross := first.trans ((congrArg (· / 2 ^ scale) same).trans second.symm)
    rw [div_eq_div_iff (by exact_mod_cast some.ne') (by exact_mod_cast some'.ne')] at cross
    dsimp only
    rw [roundRatio_congr some some' (by exact_mod_cast cross)]

theorem ofScaledRatio_eq (negative : Bool) (positive : 0 < denominator) (positive' : 0 < denominator')
    {scale : Int} (same : (numerator : ℚ) / denominator * 2 ^ scale = numerator' / denominator') :
    ofScaledRatio negative numerator denominator scale =
      ofRatio negative numerator' denominator' := by
  apply ofRatio_congr negative (scaleRatio_pos numerator positive _) positive'
  rw [scaleRatio_eq, zpow_neg, div_inv_eq_mul, same]

end Ratios

section Signs

theorem isFinite_neg (x : Binary64) : x.neg.isFinite = x.isFinite := by
  cases x <;> rfl

theorem neg_ofRatio (numerator denominator : Nat) :
    (ofRatio false numerator denominator).neg = ofRatio true numerator denominator := by
  rw [ofRatio, ofRatio]
  split
  · rfl
  · dsimp only
    rw [ofRank, ofRank]
    split <;> rfl

theorem neg_ofDecimal (x : Decimal) : (ofDecimal false x).neg = ofDecimal true x := by
  rw [ofDecimal, ofDecimal]
  split_ifs <;> first | rfl | exact neg_ofRatio _ _

end Signs

section Operations

variable {e e' : Fin 2047} {f f' : Fin (2 ^ 52)} {numerator denominator : Nat}

theorem mul_finite (a b : Bool) (positive : 0 < denominator)
    (same : (dyadic e f).value * (dyadic e' f').value = numerator / denominator) :
    (finite a e f).mul (finite b e' f') = ofRatio (a != b) numerator denominator := by
  apply ofScaledRatio_eq _ Nat.one_pos positive
  rw [← same, Dyadic.value, Dyadic.value, zpow_add₀ two_ne_zero]
  push_cast
  ring

theorem div_finite (a b : Bool) (positive : 0 < denominator)
    (nonzero : (dyadic e' f').significand ≠ 0)
    (same : (dyadic e f).value / (dyadic e' f').value = numerator / denominator) :
    (finite a e f).div (finite b e' f') = ofRatio (a != b) numerator denominator := by
  rw [div, if_pos nonzero]
  apply ofScaledRatio_eq _ (Nat.pos_of_ne_zero nonzero) positive
  rw [← same, Dyadic.value, Dyadic.value, zpow_sub₀ two_ne_zero]
  ring

end Operations

section Exact

theorem Dyadic.covers_value (x : Dyadic) : x.Covers x.value := by
  have unit : (0 : ℚ) < 2 ^ x.scale := by positivity
  have reach : 0 < x.reach := by
    rw [Dyadic.reach]
    split <;> norm_num
  have below : ((x.significand : ℚ) - x.reach) * 2 ^ x.scale < x.value := by
    rw [Dyadic.value]
    gcongr
    linarith
  have above : x.value < ((x.significand : ℚ) + 1 / 2) * 2 ^ x.scale := by
    rw [Dyadic.value]
    gcongr
    linarith
  exact ⟨below.le, above.le, fun _ => ⟨below, above⟩⟩

theorem Dyadic.significand_ne_zero {x : Dyadic} (positive : 0 < x.value) : x.significand ≠ 0 := by
  intro vanishes
  rw [Dyadic.value, vanishes, Nat.cast_zero, zero_mul] at positive
  exact lt_irrefl 0 positive

/-- Significands of 53 bits at a power of two that is not too large are those of floats. -/
theorem exists_dyadic {significand power : Nat} (positive : 0 < significand)
    (small : significand < 2 ^ 53) (fits : power ≤ 971) :
    ∃ e f, (dyadic e f).value = significand * 2 ^ power := by
  have nonzero : significand ≠ 0 := positive.ne'
  have least := Nat.log2_self_le nonzero
  have most := @Nat.lt_log2_self significand
  have bits : significand.log2 ≤ 52 := by
    have less := (Nat.log2_lt nonzero).mpr small
    omega
  generalize significand.log2 = log at least most bits
  obtain ⟨shift, whole⟩ := Nat.exists_eq_add_of_le bits
  have unit : 2 ^ 52 = 2 ^ log * 2 ^ shift := by rw [← pow_add, ← whole]
  have low : 2 ^ 52 ≤ significand * 2 ^ shift := by
    rw [unit]
    exact Nat.mul_le_mul_right _ least
  have high : significand * 2 ^ shift < 2 ^ 53 := by
    calc
      significand * 2 ^ shift < 2 ^ (log + 1) * 2 ^ shift :=
        Nat.mul_lt_mul_of_pos_right most (Nat.two_pow_pos _)
      _ = 2 ^ 53 := by rw [← pow_add, show log + 1 + shift = 53 by omega]
  refine ⟨⟨log + 1023 + power, by omega⟩, ⟨significand * 2 ^ shift - 2 ^ 52, ?_⟩, ?_⟩
  · rw [Nat.pow_eq]
    omega
  · have normal : Nat.pow 2 52 + (significand * 2 ^ shift - 2 ^ 52) = significand * 2 ^ shift := by
      rw [Nat.pow_eq]
      omega
    have scale : ((log + 1023 + power : Nat) : Int) - 1075 = power - shift := by
      push_cast
      omega
    rw [dyadic, if_neg (by dsimp only; omega), Dyadic.value]
    dsimp only
    rw [normal, scale, zpow_sub₀ two_ne_zero, zpow_natCast, zpow_natCast]
    push_cast
    field_simp

theorem ofRatio_exact (negative : Bool) {e : Fin 2047} {f : Fin (2 ^ 52)} {n : Nat}
    (positive : 0 < n) (same : (dyadic e f).value = n) :
    ofRatio negative n 1 = finite negative e f := by
  apply ofRatio_of_covers negative positive Nat.one_pos
  rw [Nat.cast_one, div_one, ← same]
  exact Dyadic.covers_value _

theorem ofRatio_whole {n : Nat} (small : n < 2 ^ 53) :
    ∃ e f, ofRatio false n 1 = finite false e f ∧ (dyadic e f).value = n := by
  rcases Nat.eq_zero_or_pos n with rfl | positive
  · refine ⟨0, 0, rfl, ?_⟩
    have nothing : (dyadic 0 0).significand = 0 := rfl
    rw [Dyadic.value, nothing, Nat.cast_zero, zero_mul]
  · obtain ⟨e, f, same⟩ := exists_dyadic positive small (Nat.zero_le 971)
    rw [pow_zero, mul_one] at same
    exact ⟨e, f, ofRatio_exact false positive same, same⟩

/-- Up to `10 ^ 22` the powers of ten are floats: their odd factors have 53 bits. -/
theorem tenPower_exact {power : Nat} (few : power ≤ 22) :
    ∃ e f, tenPower power = finite false e f ∧ (dyadic e f).value = 10 ^ power := by
  have odd : 5 ^ power < 2 ^ 53 := lt_of_le_of_lt (Nat.pow_le_pow_right (by decide) few) (by decide)
  obtain ⟨e, f, same⟩ := exists_dyadic (Nat.pow_pos (by decide)) odd (show power ≤ 971 by omega)
  have value : (dyadic e f).value = 10 ^ power := by
    rw [same]
    push_cast
    rw [← mul_pow]
    norm_num
  refine ⟨e, f, ?_, value⟩
  have whole : (Decimal.mk 1 power).value = (dyadic e f).value := by
    rw [value, Decimal.value, Nat.cast_one, one_mul, zpow_natCast]
  apply ofDecimal_of_covers false e f
  · rw [whole]
    exact Dyadic.covers_value _
  · apply Dyadic.significand_ne_zero
    rw [value]
    positivity

section Powers

variable {digits places : Nat} (short : digits < 2 ^ 53) (few : places ≤ 22)

include short few

/-- Of the two steps the first one is exact. -/
theorem mul_tenPower :
    (ofRatio false digits 1).mul (tenPower places) = ofRatio false (digits * 10 ^ places) 1 := by
  obtain ⟨e, f, start, value⟩ := ofRatio_whole short
  obtain ⟨e', f', power, ten⟩ := tenPower_exact few
  rw [start, power]
  apply mul_finite false false Nat.one_pos
  rw [value, ten]
  push_cast
  ring

theorem div_tenPower :
    (ofRatio false digits 1).div (tenPower places) = ofRatio false digits (10 ^ places) := by
  obtain ⟨e, f, start, value⟩ := ofRatio_whole short
  obtain ⟨e', f', power, ten⟩ := tenPower_exact few
  have nonzero : (dyadic e' f').significand ≠ 0 :=
    Dyadic.significand_ne_zero (by rw [ten]; positivity)
  rw [start, power]
  apply div_finite false false (by positivity) nonzero
  rw [value, ten]
  push_cast
  rfl

end Powers

end Exact

section Steps

variable {x : Decimal}

theorem ofDecimal_eq_ofRatio (negative : Bool) {numerator denominator : Nat}
    (positive : 0 < denominator) (above : -330 ≤ x.magnitude) (below : x.magnitude < 310)
    (same : x.value = numerator / denominator) :
    ofDecimal negative x = ofRatio negative numerator denominator := by
  by_cases vanishes : x.digits = 0
  · have nothing : x.value = 0 := by rw [Decimal.value, vanishes, Nat.cast_zero, zero_mul]
    have unit : (denominator : ℚ) ≠ 0 := by exact_mod_cast positive.ne'
    rw [nothing, eq_comm, div_eq_zero_iff] at same
    rw [ofDecimal_zero negative nothing, ofRatio, if_pos (by exact_mod_cast same.resolve_right unit)]
  · have inRange : ¬(decide (x.digits = 0) || decide (x.magnitude < -330)) = true := by
      simp only [Bool.or_eq_true, decide_eq_true_eq]
      omega
    rw [ofDecimal, if_neg inRange, if_neg (by omega), Nat.pow_eq, Nat.pow_eq]
    split
    · next whole =>
        obtain ⟨power, known⟩ := Int.eq_ofNat_of_zero_le whole
        apply ofRatio_congr negative Nat.one_pos positive
        rw [← same, Decimal.value, known, Int.toNat_natCast, zpow_natCast]
        push_cast
        ring
    · next fractional =>
        obtain ⟨power, known⟩ := Int.eq_ofNat_of_zero_le (show 0 ≤ -x.exponent by omega)
        have opposite : x.exponent = -(power : Int) := by omega
        apply ofRatio_congr negative (by positivity) positive
        rw [← same, Decimal.value, known, Int.toNat_natCast, opposite, zpow_neg, zpow_natCast]
        push_cast
        ring

theorem magnitude_bounds (short : x.digits < 2 ^ 53) (near : x.exponent.natAbs ≤ 22) :
    -330 ≤ x.magnitude ∧ x.magnitude < 310 := by
  have count : Decimal.digitCount x.digits ≤ 16 :=
    (Nat.length_toDigits_le_iff (by decide) (by decide)).mpr (lt_trans short (by decide))
  rw [Decimal.magnitude]
  omega

/-- Digits of 53 bits with at most 22 places are read as the nearest number. -/
theorem ofDecimalInSteps_eq (short : x.digits < 2 ^ 53) (near : x.exponent.natAbs ≤ 22) :
    ofDecimalInSteps x = ofDecimal false x := by
  obtain ⟨above, below⟩ := magnitude_bounds short near
  rw [ofDecimalInSteps]
  dsimp only
  split
  · next fractional =>
      obtain ⟨places, known⟩ := Int.eq_ofNat_of_zero_le (show 0 ≤ -x.exponent by omega)
      have few : places ≤ 22 := by omega
      have rounds : (places - 1) / 308 = 0 := by omega
      have value : x.value = (x.digits : ℚ) / (10 ^ places : Nat) := by
        have opposite : x.exponent = -(places : Int) := by omega
        rw [Decimal.value, opposite, zpow_neg, zpow_natCast, ← div_eq_mul_inv]
        push_cast
        rfl
      rw [known, Int.toNat_natCast, rounds, Nat.mul_zero, Nat.sub_zero, lower,
        div_tenPower short few]
      exact (ofDecimal_eq_ofRatio false (by positivity) above below value).symm
  · next whole =>
      obtain ⟨places, known⟩ := Int.eq_ofNat_of_zero_le (show 0 ≤ x.exponent by omega)
      have few : places ≤ 22 := by omega
      have value : x.value = (x.digits * 10 ^ places : Nat) / (1 : Nat) := by
        rw [Decimal.value, known, zpow_natCast, Nat.cast_one, div_one]
        push_cast
        rfl
      rw [ofDecimal_eq_ofRatio false Nat.one_pos above below value]
      split
      · next vanishes => rw [vanishes, Nat.zero_mul]
      · rw [known, Int.toNat_natCast, mul_tenPower short few]

end Steps

end GraphRequest.Binary64
