import GraphRequest.Number.Shortest
import GraphRequest.Proofs.Number.Nearest
import Mathlib.Data.Nat.Cast.Field

/-!
The shortest decimal of a number is one that the number covers: each grid is searched inside the
interval of the number, and the last grid holds the number itself.
-/

namespace GraphRequest

namespace Shortest.Interval

structure Contains (i : Interval) (ratio : ℚ) : Prop where
  lower : i.low ≤ ratio * i.denominator
  upper : ratio * i.denominator ≤ i.high
  strict : i.closed = false → i.low < ratio * i.denominator ∧ ratio * i.denominator < i.high

/-- On a grid an interval is multiplied by some factor, and its points are counted in units of the
grid. -/
theorem onGrid_eq (i : Interval) (power : Int) : ∃ factor : ℚ, 0 < factor ∧
    ((i.onGrid power).low : ℚ) = i.low * factor ∧
    ((i.onGrid power).middle : ℚ) = i.middle * factor ∧
    ((i.onGrid power).high : ℚ) = i.high * factor ∧
    ((i.onGrid power).denominator : ℚ) = 10 ^ power * i.denominator * factor ∧
    (i.onGrid power).closed = i.closed := by
  rw [onGrid]
  split
  · next whole =>
      obtain ⟨k, rfl⟩ := Int.eq_ofNat_of_zero_le whole
      refine ⟨1, one_pos, ?_, ?_, ?_, ?_, rfl⟩
      · rw [mul_one]
      · rw [mul_one]
      · rw [mul_one]
      · push_cast [Nat.pow_eq]
        rw [Int.toNat_natCast, zpow_natCast, mul_one, mul_comm]
  · next fractional =>
      obtain ⟨k, same⟩ := Int.eq_ofNat_of_zero_le (show 0 ≤ -power by omega)
      have opposite : power = -(k : Int) := by omega
      subst opposite
      have unit : (10 : ℚ) ^ k ≠ 0 := by positivity
      refine ⟨10 ^ k, by positivity, ?_, ?_, ?_, ?_, rfl⟩
      · push_cast [Nat.pow_eq]
        rw [neg_neg, Int.toNat_natCast]
      · push_cast [Nat.pow_eq]
        rw [neg_neg, Int.toNat_natCast]
      · push_cast [Nat.pow_eq]
        rw [neg_neg, Int.toNat_natCast]
      · rw [zpow_neg, zpow_natCast]
        field_simp

theorem contains_of_holds {i : Interval} {power : Int} {n : Nat}
    (holds : (i.onGrid power).holds n) : i.Contains (n * 10 ^ power) := by
  obtain ⟨factor, positive, low, -, high, denominator, closed⟩ := i.onGrid_eq power
  have point : ((n * (i.onGrid power).denominator : Nat) : ℚ) =
      n * 10 ^ power * i.denominator * factor := by
    push_cast
    rw [denominator]
    ring
  rw [Interval.holds] at holds
  have weak : (i.onGrid power).low ≤ n * (i.onGrid power).denominator ∧
      n * (i.onGrid power).denominator ≤ (i.onGrid power).high := by
    split at holds <;> simp only [Bool.and_eq_true, decide_eq_true_eq] at holds <;> omega
  constructor
  · have lower : (i.low : ℚ) * factor ≤ n * 10 ^ power * i.denominator * factor := by
      rw [← low, ← point]
      exact_mod_cast weak.1
    exact le_of_mul_le_mul_right lower positive
  · have upper : n * 10 ^ power * i.denominator * factor ≤ (i.high : ℚ) * factor := by
      rw [← high, ← point]
      exact_mod_cast weak.2
    exact le_of_mul_le_mul_right upper positive
  · intro opened
    rw [closed, opened, if_neg Bool.false_ne_true] at holds
    simp only [Bool.and_eq_true, decide_eq_true_eq] at holds
    have lower : (i.low : ℚ) * factor < n * 10 ^ power * i.denominator * factor := by
      rw [← low, ← point]
      exact_mod_cast holds.1
    have upper : n * 10 ^ power * i.denominator * factor < (i.high : ℚ) * factor := by
      rw [← high, ← point]
      exact_mod_cast holds.2
    exact ⟨lt_of_mul_lt_mul_right lower positive.le, lt_of_mul_lt_mul_right upper positive.le⟩

theorem nearest_eq_or (tie : TieRule) (i : Interval) :
    i.nearest tie = i.middle / i.denominator ∨ i.nearest tie = i.middle / i.denominator + 1 := by
  cases tie <;> simp only [nearest] <;> split_ifs <;> simp

theorem holds_of_hit {tie : TieRule} {i : Interval} {n : Nat} (found : i.hit tie = some n) :
    i.holds n := by
  rw [hit] at found
  split at found
  · next below above =>
      cases found
      rcases nearest_eq_or tie i with same | same
      · rwa [same]
      · rwa [same]
  · next below _ =>
      cases found
      exact below
  · next _ above =>
      cases found
      exact above
  · cases found

/-- The search stays inside the interval, if its middle is a point of the last grid. -/
theorem contains_coarsest (tie : TieRule) {i : Interval} (positive : 0 < i.denominator)
    (middle : i.Contains (i.middle / i.denominator)) (power : Int) (finer : Nat)
    (exact : (i.onGrid (power - finer)).denominator ∣ (i.onGrid (power - finer)).middle) :
    i.Contains (i.coarsest tie power finer).value := by
  induction finer generalizing power with
  | zero =>
      rw [Nat.cast_zero, sub_zero] at exact
      obtain ⟨factor, nonzero, -, scaled, -, denominator, -⟩ := i.onGrid_eq power
      have cast : (0 : ℚ) < i.denominator := by exact_mod_cast positive
      have unit : (0 : ℚ) < 10 ^ power := by positivity
      have same : (i.coarsest tie power 0).value = i.middle / i.denominator := by
        have divided : (i.onGrid power).denominator ≠ 0 := by
          have cast' : ((i.onGrid power).denominator : ℚ) ≠ 0 := by
            rw [denominator]
            positivity
          exact_mod_cast cast'
        rw [coarsest, Decimal.value]
        dsimp only
        rw [Nat.cast_div exact (by exact_mod_cast divided), scaled, denominator]
        field_simp
      rwa [same]
  | succ finer ih =>
      rw [coarsest]
      cases found : (i.onGrid power).hit tie with
      | some digits => exact contains_of_holds (holds_of_hit found)
      | none =>
          apply ih (power - 1)
          have same : power - 1 - (finer : Int) = power - ((finer + 1 : Nat) : Int) := by
            push_cast
            omega
          rwa [same]

end Shortest.Interval

namespace Shortest

theorem interval_denominator_pos (x : Binary64.Dyadic) : 0 < (interval x).denominator := by
  rw [interval]
  dsimp only
  split
  · exact Nat.one_pos
  · exact Nat.two_pow_pos _

theorem interval_eq {x : Binary64.Dyadic} (nonzero : x.significand ≠ 0) :
    ((interval x).low : ℚ) = (x.significand - x.reach) * 2 ^ x.scale * (interval x).denominator ∧
    ((interval x).middle : ℚ) = x.value * (interval x).denominator ∧
    ((interval x).high : ℚ) =
      (x.significand + 1 / 2) * 2 ^ x.scale * (interval x).denominator := by
  have scale : (2 : ℚ) ^ x.scale = 4 * 2 ^ (x.scale - 2) := by
    rw [zpow_sub₀ two_ne_zero]
    norm_num
    ring
  have factor : ((if 0 ≤ x.scale - 2 then 2 ^ (x.scale - 2).toNat else 1 : Nat) : ℚ) =
      2 ^ (x.scale - 2) * (interval x).denominator := by
    rw [interval]
    dsimp only
    split
    · next whole =>
        obtain ⟨k, same⟩ := Int.eq_ofNat_of_zero_le whole
        rw [same, Int.toNat_natCast, zpow_natCast]
        push_cast
        rw [mul_one]
    · next fractional =>
        obtain ⟨k, same⟩ := Int.eq_ofNat_of_zero_le (show 0 ≤ -(x.scale - 2) by omega)
        have opposite : x.scale - 2 = -(k : Int) := by omega
        have unit : (2 : ℚ) ^ k ≠ 0 := by positivity
        rw [opposite, neg_neg, Int.toNat_natCast, zpow_neg, zpow_natCast]
        push_cast [Nat.pow_eq]
        rw [inv_mul_cancel₀ unit]
  have below : ((4 * x.significand -
      (if x.significand = 2 ^ 52 && decide (-1074 < x.scale) then 1 else 2) : Nat) : ℚ) =
      4 * (x.significand - x.reach) := by
    have one : 1 ≤ x.significand := Nat.one_le_iff_ne_zero.mpr nonzero
    rw [Binary64.Dyadic.reach]
    simp only [Bool.and_eq_true, decide_eq_true_eq]
    split
    · rw [Nat.cast_sub (by omega)]
      push_cast
      ring
    · rw [Nat.cast_sub (by omega)]
      push_cast
      ring
  have low : (interval x).low = (4 * x.significand -
      (if x.significand = 2 ^ 52 && decide (-1074 < x.scale) then 1 else 2)) *
      (if 0 ≤ x.scale - 2 then 2 ^ (x.scale - 2).toNat else 1) := rfl
  have middle : (interval x).middle = 4 * x.significand *
      (if 0 ≤ x.scale - 2 then 2 ^ (x.scale - 2).toNat else 1) := rfl
  have high : (interval x).high = (4 * x.significand + 2) *
      (if 0 ≤ x.scale - 2 then 2 ^ (x.scale - 2).toNat else 1) := rfl
  rw [low, middle, high, Binary64.Dyadic.value, scale]
  simp only [Nat.cast_mul, below, factor]
  push_cast
  exact ⟨by ring, by ring, by ring⟩

theorem covers_of_contains {x : Binary64.Dyadic} {ratio : ℚ} (nonzero : x.significand ≠ 0)
    (contains : (interval x).Contains ratio) : x.Covers ratio := by
  obtain ⟨low, -, high⟩ := interval_eq nonzero
  have positive : (0 : ℚ) < (interval x).denominator := by
    exact_mod_cast interval_denominator_pos x
  rcases contains with ⟨lower, upper, strict⟩
  rw [low] at lower strict
  rw [high] at upper strict
  refine ⟨le_of_mul_le_mul_right lower positive, le_of_mul_le_mul_right upper positive, ?_⟩
  intro odd
  have opened : (interval x).closed = false := by
    change decide (x.significand % 2 = 0) = false
    simp [odd]
  obtain ⟨below, above⟩ := strict opened
  exact ⟨lt_of_mul_lt_mul_right below positive.le, lt_of_mul_lt_mul_right above positive.le⟩

theorem contains_middle {x : Binary64.Dyadic} (nonzero : x.significand ≠ 0) :
    (interval x).Contains ((interval x).middle / (interval x).denominator) := by
  obtain ⟨low, middle, high⟩ := interval_eq nonzero
  have positive : (0 : ℚ) < (interval x).denominator := by
    exact_mod_cast interval_denominator_pos x
  have unit : (0 : ℚ) < 2 ^ x.scale := by positivity
  have reach : 0 < x.reach := by
    rw [Binary64.Dyadic.reach]
    split <;> norm_num
  have point : ((interval x).middle : ℚ) / (interval x).denominator * (interval x).denominator =
      x.value * (interval x).denominator := by
    rw [div_mul_cancel₀ _ positive.ne', middle]
  have below : ((interval x).low : ℚ) < x.value * (interval x).denominator := by
    rw [low, Binary64.Dyadic.value]
    gcongr
    linarith
  have above : x.value * (interval x).denominator < ((interval x).high : ℚ) := by
    rw [high, Binary64.Dyadic.value]
    gcongr
    linarith
  constructor
  · rw [point]
    exact below.le
  · rw [point]
    exact above.le
  · intro _
    rw [point]
    exact ⟨below, above⟩

/-- At the power of ten of its scale a number is a whole number of units. -/
theorem dvd_middle_onGrid (x : Binary64.Dyadic) :
    ((interval x).onGrid (-((-x.scale).toNat : Int))).denominator ∣
      ((interval x).onGrid (-((-x.scale).toNat : Int))).middle := by
  rcases lt_or_ge x.scale 0 with negative | whole
  · obtain ⟨k, same⟩ := Int.eq_ofNat_of_zero_le (show 0 ≤ -x.scale by omega)
    have positive : 0 < k := by omega
    have opposite : -(x.scale - 2) = ((k + 2 : Nat) : Int) := by omega
    have quarter : ¬0 ≤ x.scale - 2 := by omega
    rw [same, Int.toNat_natCast, Interval.onGrid, if_neg (by omega), neg_neg, Int.toNat_natCast]
    simp only [interval, if_neg quarter, opposite, Int.toNat_natCast, mul_one, Nat.pow_eq]
    refine ⟨x.significand * 5 ^ k, ?_⟩
    rw [show 10 = 2 * 5 from rfl, mul_pow, pow_add]
    ring
  · have none : -((-x.scale).toNat : Int) = 0 := by omega
    rw [none, Interval.onGrid, if_pos (le_refl _)]
    simp only [interval, Int.toNat_zero, pow_zero, mul_one, Nat.pow_eq]
    split
    · exact one_dvd _
    · have small : (-(x.scale - 2)).toNat = 1 ∨ (-(x.scale - 2)).toNat = 2 := by omega
      rcases small with same | same
      · rw [same]
        omega
      · rw [same]
        omega

end Shortest

/-- The shortest decimal of a number reads as the number. -/
theorem Binary64.Dyadic.covers_shortest (tie : TieRule) {x : Binary64.Dyadic}
    (nonzero : x.significand ≠ 0) : x.Covers (x.shortest tie).value := by
  apply Shortest.covers_of_contains nonzero
  rw [Binary64.Dyadic.shortest]
  refine Shortest.Interval.contains_coarsest tie (Shortest.interval_denominator_pos x)
    (Shortest.contains_middle nonzero) _ _ ?_
  have last : ∀ top : Nat, (top : Int) - ((top + (-x.scale).toNat : Nat) : Int) =
      -((-x.scale).toNat : Int) := by
    intro top
    omega
  rw [last]
  exact Shortest.dvd_middle_onGrid x

end GraphRequest
