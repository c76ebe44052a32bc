import GraphRequest.Number.Binary64
import Mathlib.Algebra.Order.Field.Power
import Mathlib.Algebra.Order.Floor.Ring
import Mathlib.Data.Nat.Log
import Mathlib.Data.Rat.Cast.Order
import Mathlib.Tactic.FieldSimp
import Mathlib.Tactic.Linarith
import Mathlib.Tactic.NormNum
import Mathlib.Tactic.Ring

/-!
Rounding a ratio gives a finite number whenever the ratio lies between the points halfway to the
neighbours of that number. An end of this range belongs to it iff the significand is even.
-/

namespace GraphRequest.Binary64

theorem roundRatio_eq_of_nat {numerator denominator n : Nat} (positive : 0 < denominator)
    (lower : 2 * (n * denominator) ≤ 2 * numerator + denominator)
    (upper : 2 * numerator ≤ 2 * (n * denominator) + denominator)
    (strict : n % 2 = 1 → 2 * (n * denominator) < 2 * numerator + denominator ∧
      2 * numerator < 2 * (n * denominator) + denominator) :
    roundRatio numerator denominator = n := by
  have split := Nat.div_add_mod' numerator denominator
  have small := Nat.mod_lt numerator positive
  rw [roundRatio]
  generalize numerator / denominator = whole at split ⊢
  generalize numerator % denominator = rest at split small ⊢
  have least : whole ≤ n := by
    by_contra less
    have gap : (n + 1) * denominator ≤ whole * denominator := Nat.mul_le_mul_right _ (by omega)
    rw [Nat.add_mul] at gap
    omega
  have most : n ≤ whole + 1 := by
    by_contra more
    have gap : (whole + 2) * denominator ≤ n * denominator := Nat.mul_le_mul_right _ (by omega)
    rw [Nat.add_mul] at gap
    omega
  rcases Nat.eq_or_lt_of_le least with rfl | above
  · split_ifs <;> omega
  · obtain rfl : n = whole + 1 := by omega
    rw [Nat.add_mul] at lower upper strict
    split_ifs <;> omega

/-- A whole number that is at most a half away is the nearest one, an odd one if it is less. -/
theorem roundRatio_eq {numerator denominator n : Nat} (positive : 0 < denominator)
    (lower : (n : ℚ) - 1 / 2 ≤ numerator / denominator)
    (upper : (numerator : ℚ) / denominator ≤ n + 1 / 2)
    (strict : n % 2 = 1 → (n : ℚ) - 1 / 2 < numerator / denominator ∧
      (numerator : ℚ) / denominator < n + 1 / 2) :
    roundRatio numerator denominator = n := by
  have cast : (0 : ℚ) < denominator := by exact_mod_cast positive
  rw [le_div_iff₀ cast] at lower
  rw [div_le_iff₀ cast] at upper
  rw [lt_div_iff₀ cast, div_lt_iff₀ cast] at strict
  refine roundRatio_eq_of_nat positive ?_ ?_ fun odd => ⟨?_, ?_⟩
  · exact_mod_cast (by linarith : (2 : ℚ) * (n * denominator) ≤ 2 * numerator + denominator)
  · exact_mod_cast (by linarith : (2 : ℚ) * numerator ≤ 2 * (n * denominator) + denominator)
  · have below := (strict odd).1
    exact_mod_cast (by linarith : (2 : ℚ) * (n * denominator) < 2 * numerator + denominator)
  · have above := (strict odd).2
    exact_mod_cast (by linarith : (2 : ℚ) * numerator < 2 * (n * denominator) + denominator)

theorem scaleRatio_pos (numerator : Nat) {denominator : Nat} (positive : 0 < denominator)
    (power : Int) : 0 < (scaleRatio numerator denominator power).2 := by
  rw [scaleRatio]
  split
  · exact Nat.mul_pos positive (Nat.two_pow_pos _)
  · exact positive

theorem scaleRatio_eq (numerator denominator : Nat) (power : Int) :
    ((scaleRatio numerator denominator power).1 : ℚ) / (scaleRatio numerator denominator power).2 =
      numerator / denominator / 2 ^ power := by
  rw [scaleRatio, Nat.pow_eq, Nat.pow_eq]
  split
  · next nonneg =>
      obtain ⟨k, rfl⟩ := Int.eq_ofNat_of_zero_le nonneg
      push_cast
      rw [Int.toNat_natCast, zpow_natCast, div_div]
  · next negative =>
      obtain ⟨k, same⟩ := Int.eq_ofNat_of_zero_le (show 0 ≤ -power by omega)
      have opposite : power = -(k : Int) := by omega
      subst opposite
      push_cast
      rw [neg_neg, Int.toNat_natCast, zpow_neg, zpow_natCast, div_inv_eq_mul, mul_div_right_comm]

theorem natCast_log2_bounds {n : Nat} (positive : 0 < n) :
    (2 : ℚ) ^ (n.log2 : Int) ≤ n ∧ (n : ℚ) < 2 ^ ((n.log2 : Int) + 1) := by
  have nonzero : n ≠ 0 := by omega
  constructor
  · rw [zpow_natCast]
    exact_mod_cast Nat.log2_self_le nonzero
  · have above := Nat.lt_log2_self (n := n)
    have same : ((n.log2 : Int) + 1) = ((n.log2 + 1 : Nat) : Int) := by push_cast; rfl
    rw [same, zpow_natCast]
    exact_mod_cast above

theorem log2Ratio_bounds {numerator denominator : Nat} (above : 0 < numerator)
    (positive : 0 < denominator) :
    (2 : ℚ) ^ log2Ratio numerator denominator ≤ numerator / denominator ∧
      (numerator : ℚ) / denominator < 2 ^ (log2Ratio numerator denominator + 1) := by
  obtain ⟨top, topNext⟩ := natCast_log2_bounds above
  obtain ⟨bottom, bottomNext⟩ := natCast_log2_bounds positive
  have cast : (0 : ℚ) < denominator := by exact_mod_cast positive
  have two : (2 : ℚ) ≠ 0 := two_ne_zero
  rw [log2Ratio]
  set guess : Int := (numerator.log2 : Int) - (denominator.log2 : Int) with guessed
  have scaled := scaleRatio_eq numerator denominator guess
  have scaledPos : (0 : ℚ) < (scaleRatio numerator denominator guess).2 := by
    exact_mod_cast scaleRatio_pos numerator positive guess
  have unit : (0 : ℚ) < 2 ^ guess := by positivity
  split
  · next fits =>
      have fits' : (1 : ℚ) ≤ numerator / denominator / 2 ^ guess := by
        rw [← scaled, le_div_iff₀ scaledPos, one_mul]
        exact_mod_cast fits
      refine ⟨by rwa [le_div_iff₀ unit, one_mul] at fits', ?_⟩
      rw [div_lt_iff₀ cast]
      calc (numerator : ℚ) < 2 ^ ((numerator.log2 : Int) + 1) := topNext
        _ = 2 ^ (guess + 1) * 2 ^ (denominator.log2 : Int) := by
          rw [← zpow_add₀ two, guessed]
          congr 1
          omega
        _ ≤ 2 ^ (guess + 1) * denominator := by gcongr
  · next larger =>
      have larger' : (numerator : ℚ) / denominator / 2 ^ guess < 1 := by
        rw [← scaled, div_lt_one scaledPos]
        exact_mod_cast Nat.lt_of_not_le larger
      refine ⟨?_, by rwa [div_lt_one unit, ← sub_add_cancel guess 1] at larger'⟩
      rw [le_div_iff₀ cast]
      calc (2 : ℚ) ^ (guess - 1) * denominator
          ≤ 2 ^ (guess - 1) * 2 ^ ((denominator.log2 : Int) + 1) := by gcongr
        _ = 2 ^ (numerator.log2 : Int) := by
          rw [← zpow_add₀ two, guessed]
          congr 1
          omega
        _ ≤ numerator := top

theorem log2Ratio_eq {numerator denominator : Nat} (above : 0 < numerator)
    (positive : 0 < denominator) {power : Int}
    (lower : (2 : ℚ) ^ power ≤ numerator / denominator)
    (upper : (numerator : ℚ) / denominator < 2 ^ (power + 1)) :
    log2Ratio numerator denominator = power := by
  obtain ⟨least, most⟩ := log2Ratio_bounds above positive
  have below := (zpow_lt_zpow_iff_right₀ (one_lt_two (α := ℚ))).mp (lower.trans_lt most)
  have reached := (zpow_lt_zpow_iff_right₀ (one_lt_two (α := ℚ))).mp (least.trans_lt upper)
  omega

namespace Dyadic

def value (x : Dyadic) : ℚ :=
  x.significand * 2 ^ x.scale

/-- How far below a number the ratios lie that round to it, in units of its scale. -/
def reach (x : Dyadic) : ℚ :=
  if x.significand = 2 ^ 52 ∧ -1074 < x.scale then 1 / 4 else 1 / 2

/-- The ratio lies between the points halfway to the neighbours of `x`. -/
structure Covers (x : Dyadic) (ratio : ℚ) : Prop where
  lower : (x.significand - x.reach) * 2 ^ x.scale ≤ ratio
  upper : ratio ≤ (x.significand + 1 / 2) * 2 ^ x.scale
  strict : x.significand % 2 = 1 → (x.significand - x.reach) * 2 ^ x.scale < ratio ∧
    ratio < (x.significand + 1 / 2) * 2 ^ x.scale

theorem reach_le (x : Dyadic) : x.reach ≤ 1 / 2 := by
  rw [reach]
  split <;> norm_num

end Dyadic

section Ranks

variable (exponent : Fin 2047) (fraction : Fin (2 ^ 52))

theorem dyadic_bounds : (dyadic exponent fraction).significand < 2 ^ 53 ∧
    -1074 ≤ (dyadic exponent fraction).scale ∧ (dyadic exponent fraction).scale ≤ 971 ∧
    (2 ^ 52 ≤ (dyadic exponent fraction).significand ∨
      (dyadic exponent fraction).scale = -1074) := by
  have small := fraction.isLt
  have bound := exponent.isLt
  have power : Nat.pow 2 52 = 2 ^ 52 := rfl
  rw [dyadic]
  split
  · exact ⟨by dsimp only; omega, le_refl _, by dsimp only; omega, .inr rfl⟩
  · dsimp only
    omega

theorem dyadic_rank : ((dyadic exponent fraction).scale + 1074).toNat * 2 ^ 52 +
    (dyadic exponent fraction).significand = exponent.val * 2 ^ 52 + fraction.val := by
  have power : Nat.pow 2 52 = 2 ^ 52 := rfl
  rw [dyadic]
  split <;> dsimp only <;> omega

theorem ofRank_eq (negative : Bool) :
    ofRank negative (exponent.val * 2 ^ 52 + fraction.val) = finite negative exponent fraction := by
  have small := fraction.isLt
  have quotient : (exponent.val * 2 ^ 52 + fraction.val) / Nat.pow 2 52 = exponent.val := by
    rw [Nat.pow_eq]
    omega
  have remainder : (exponent.val * 2 ^ 52 + fraction.val) % Nat.pow 2 52 = fraction.val := by
    rw [Nat.pow_eq]
    omega
  have bound : (exponent.val * 2 ^ 52 + fraction.val) / Nat.pow 2 52 < 2047 := by
    rw [quotient]
    exact exponent.isLt
  rw [ofRank, dif_pos bound]
  congr 1
  · exact Fin.ext quotient
  · exact Fin.ext remainder

end Ranks

section Covered

variable {x : Dyadic} {numerator denominator : Nat}

theorem Dyadic.Covers.scaled {ratio : ℚ} (covers : x.Covers ratio) :
    x.significand - 1 / 2 ≤ ratio / 2 ^ x.scale ∧ ratio / 2 ^ x.scale ≤ x.significand + 1 / 2 ∧
      (x.significand % 2 = 1 → x.significand - 1 / 2 < ratio / 2 ^ x.scale ∧
        ratio / 2 ^ x.scale < x.significand + 1 / 2) := by
  have unit : (0 : ℚ) < 2 ^ x.scale := by positivity
  have reach := x.reach_le
  rw [le_div_iff₀ unit, div_le_iff₀ unit, lt_div_iff₀ unit, div_lt_iff₀ unit]
  have wider : (x.significand - 1 / 2) * 2 ^ x.scale ≤ (x.significand - x.reach) * 2 ^ x.scale := by
    gcongr
  exact ⟨wider.trans covers.lower, covers.upper,
    fun odd => ⟨wider.trans_lt (covers.strict odd).1, (covers.strict odd).2⟩⟩

theorem roundRatio_of_covers (positive : 0 < denominator)
    (covers : x.Covers (numerator / denominator)) :
    roundRatio (scaleRatio numerator denominator x.scale).1
      (scaleRatio numerator denominator x.scale).2 = x.significand := by
  rcases covers.scaled with ⟨lower, upper, strict⟩
  have scaled := scaleRatio_eq numerator denominator x.scale
  rw [← scaled] at lower upper strict
  exact roundRatio_eq (scaleRatio_pos numerator positive x.scale) lower upper strict

/-- Just below a power of two the scale is finer by one, and the ratio rounds up to the power. -/
theorem roundRatio_of_covers_below (positive : 0 < denominator)
    (covers : x.Covers (numerator / denominator)) (power : x.significand = 2 ^ 52)
    (normal : -1074 < x.scale)
    (below : (numerator : ℚ) / denominator < 2 ^ 52 * 2 ^ x.scale) :
    roundRatio (scaleRatio numerator denominator (x.scale - 1)).1
      (scaleRatio numerator denominator (x.scale - 1)).2 = 2 ^ 53 := by
  have scaled := scaleRatio_eq numerator denominator (x.scale - 1)
  have unit : (0 : ℚ) < 2 ^ (x.scale - 1) := by positivity
  have double : (2 : ℚ) ^ x.scale = 2 * 2 ^ (x.scale - 1) := by
    rw [← zpow_one_add₀ two_ne_zero]
    congr 1
    omega
  have quarter : x.reach = 1 / 4 := if_pos ⟨power, normal⟩
  have lower := covers.lower
  rw [power, quarter, double] at lower
  rw [double] at below
  push_cast at lower
  have closer : (2 : ℚ) ^ 53 - 1 / 2 ≤ numerator / denominator / 2 ^ (x.scale - 1) := by
    rw [le_div_iff₀ unit]
    linarith
  have under : (numerator : ℚ) / denominator / 2 ^ (x.scale - 1) < 2 ^ 53 := by
    rw [div_lt_iff₀ unit]
    linarith
  rw [← scaled] at closer under
  refine roundRatio_eq (scaleRatio_pos numerator positive _) ?_ ?_ fun odd => by omega
  · exact_mod_cast closer
  · push_cast
    linarith

end Covered

theorem Dyadic.Covers.power_of_below {x : Dyadic} {ratio : ℚ} (covers : x.Covers ratio)
    (normal : 2 ^ 52 ≤ x.significand)
    (below : ratio < 2 ^ 52 * 2 ^ x.scale) :
    x.significand = 2 ^ 52 ∧ 2 ^ (x.scale + 51) ≤ ratio := by
  have unit : (0 : ℚ) < 2 ^ x.scale := by positivity
  have under : (x.significand : ℚ) - x.reach < 2 ^ 52 := by
    by_contra beyond
    have wide : (2 : ℚ) ^ 52 * 2 ^ x.scale ≤ (x.significand - x.reach) * 2 ^ x.scale := by
      gcongr
      exact le_of_not_gt beyond
    exact absurd (wide.trans covers.lower) (not_le_of_gt below)
  have close : (x.significand : ℚ) < 2 ^ 52 + 1 := by
    have reach := x.reach_le
    linarith
  have power : x.significand = 2 ^ 52 := by
    have bound : x.significand < 2 ^ 52 + 1 := by exact_mod_cast close
    omega
  refine ⟨power, ?_⟩
  have reach := x.reach_le
  have half : (2 : ℚ) ^ (x.scale + 51) = 2 ^ 51 * 2 ^ x.scale := by
    rw [add_comm, zpow_add₀ two_ne_zero]
    norm_num
  rw [half]
  refine le_trans ?_ covers.lower
  rw [power]
  gcongr
  push_cast
  linarith

theorem ofRatio_of_covers (negative : Bool) {numerator denominator : Nat}
    (above : 0 < numerator) (positive : 0 < denominator) (exponent : Fin 2047)
    (fraction : Fin (2 ^ 52))
    (covers : (dyadic exponent fraction).Covers (numerator / denominator)) :
    ofRatio negative numerator denominator = finite negative exponent fraction := by
  obtain ⟨small, least, -, normal⟩ := dyadic_bounds exponent fraction
  have rank := dyadic_rank exponent fraction
  generalize dyadic exponent fraction = x at small least normal rank covers
  have two : (2 : ℚ) ≠ 0 := two_ne_zero
  have unit : (0 : ℚ) < 2 ^ x.scale := by positivity
  have top : (numerator : ℚ) / denominator < 2 ^ (x.scale + 52 + 1) := by
    have limit : ((x.significand : ℚ) + 1) ≤ 2 ^ 53 := by exact_mod_cast small
    have wide : (2 : ℚ) ^ (x.scale + 52 + 1) = 2 ^ 53 * 2 ^ x.scale := by
      rw [show x.scale + 52 + 1 = 53 + x.scale by omega, zpow_add₀ two]
      norm_num
    rw [wide]
    apply covers.upper.trans_lt
    gcongr
    linarith
  have bottom : (2 : ℚ) ^ (x.scale + 52) = 2 ^ 52 * 2 ^ x.scale := by
    rw [show x.scale + 52 = 52 + x.scale by omega, zpow_add₀ two]
    norm_num
  rw [ofRatio, if_neg (by omega), Nat.pow_eq, ← ofRank_eq exponent fraction negative, ← rank]
  apply congrArg (ofRank negative)
  by_cases inside : (2 : ℚ) ^ 52 * 2 ^ x.scale ≤ numerator / denominator
  · have log : log2Ratio numerator denominator = x.scale + 52 :=
      log2Ratio_eq above positive (bottom ▸ inside) top
    have scale : max (log2Ratio numerator denominator - 52) (-1074) = x.scale := by omega
    rw [scale, roundRatio_of_covers positive covers]
  · have under := lt_of_not_ge inside
    by_cases subnormal : x.scale = -1074
    · have log : log2Ratio numerator denominator < x.scale + 52 := by
        refine (zpow_lt_zpow_iff_right₀ (one_lt_two (α := ℚ))).mp ?_
        rw [bottom]
        exact (log2Ratio_bounds above positive).1.trans_lt under
      have scale : max (log2Ratio numerator denominator - 52) (-1074) = x.scale := by omega
      rw [scale, roundRatio_of_covers positive covers]
    · obtain ⟨power, half⟩ := covers.power_of_below (by omega) under
      have log : log2Ratio numerator denominator = x.scale + 51 := by
        apply log2Ratio_eq above positive half
        rw [add_assoc]
        exact bottom ▸ under
      have scale : max (log2Ratio numerator denominator - 52) (-1074) = x.scale - 1 := by omega
      have next : (x.scale + 1074).toNat = (x.scale - 1 + 1074).toNat + 1 := by omega
      rw [scale, roundRatio_of_covers_below positive covers power (by omega) under, power, next,
        Nat.add_mul, Nat.add_assoc]
      norm_num

end GraphRequest.Binary64
