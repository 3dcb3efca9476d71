import Mathlib.Algebra.Order.Floor.Semifield
import Mathlib.Data.Int.Log
import Mathlib.Data.Rat.Floor
import Mathlib.Tactic.FieldSimp
import Mathlib.Tactic.GCongr
import Mathlib.Tactic.Linarith
import Mathlib.Tactic.NormNum
import Mathlib.Tactic.Positivity
import Mathlib.Tactic.Ring
import Flowfile.Number.Decimal

/-! Doubles and decimals as rational numbers.

The nearest double depends on the number alone and not on how it is given, and what is close enough
to a double has it as the nearest one. -/

namespace Flowfile

def Decimal.value (d : Decimal) : ℚ := d.digits * 10 ^ d.power

namespace Double

def magnitude (rank : Nat) : ℚ := significand rank * 2 ^ exponent rank

section

variable {base num den : Nat}

theorem scale_pos (num : Nat) (positive : 0 < den) (several : 1 < base) (power : Int) :
    0 < (scale base num den power).2 := by
  rw [scale]
  split
  · exact positive
  · exact Nat.mul_pos positive (Nat.pow_pos (by omega))

theorem scale_ratio (num den : Nat) (several : 1 < base) (power : Int) :
    ((scale base num den power).1 : ℚ) / (scale base num den power).2 =
      (num : ℚ) / den * (base : ℚ) ^ power := by
  have nonzero : (base : ℚ) ≠ 0 := by positivity
  rw [scale]
  split
  · rename_i up
    obtain ⟨count, rfl⟩ := Int.eq_ofNat_of_zero_le up
    simp only [Int.toNat_natCast, zpow_natCast, Nat.pow_eq]
    push_cast
    ring
  · rename_i down
    obtain ⟨count, same⟩ := Int.eq_ofNat_of_zero_le (show 0 ≤ -power by omega)
    obtain rfl : power = -(count : Int) := by omega
    simp only [neg_neg, Int.toNat_natCast, zpow_neg, zpow_natCast, Nat.pow_eq]
    push_cast
    rw [div_mul_eq_div_div, div_eq_mul_inv _ ((base : ℚ) ^ count)]

theorem log_ratio (several : 1 < base) {a b : Int} (low : (base : ℚ) ^ a ≤ num)
    (high : (num : ℚ) < (base : ℚ) ^ (a + 1)) (low' : (base : ℚ) ^ b ≤ den)
    (high' : (den : ℚ) < (base : ℚ) ^ (b + 1)) :
    Int.log base ((num : ℚ) / den) =
      if (base : ℚ) ^ (a - b) ≤ (num : ℚ) / den then a - b else a - b - 1 := by
  have base_pos : (0 : ℚ) < base := by positivity
  have positive : (0 : ℚ) < den := lt_of_lt_of_le (zpow_pos base_pos b) low'
  have least : (0 : ℚ) < (num : ℚ) / den := div_pos (lt_of_lt_of_le (zpow_pos base_pos a) low) positive
  have below : (num : ℚ) / den < (base : ℚ) ^ (a - b + 1) := by
    rw [div_lt_iff₀ positive]
    calc (num : ℚ) < (base : ℚ) ^ (a + 1) := high
      _ = (base : ℚ) ^ (a - b + 1) * (base : ℚ) ^ b := by
        rw [← zpow_add₀ base_pos.ne']
        congr 1
        omega
      _ ≤ (base : ℚ) ^ (a - b + 1) * den :=
        mul_le_mul_of_nonneg_left low' (zpow_pos base_pos _).le
  have above : (base : ℚ) ^ (a - b - 1) ≤ (num : ℚ) / den := by
    rw [le_div_iff₀ positive]
    calc (base : ℚ) ^ (a - b - 1) * den ≤ (base : ℚ) ^ (a - b - 1) * (base : ℚ) ^ (b + 1) :=
          mul_le_mul_of_nonneg_left high'.le (zpow_pos base_pos _).le
      _ = (base : ℚ) ^ a := by
        rw [← zpow_add₀ base_pos.ne']
        congr 1
        omega
      _ ≤ num := low
  rw [Int.lt_zpow_iff_log_lt several least] at below
  rw [Int.zpow_le_iff_le_log several least] at above
  split
  · rename_i reached
    rw [Int.zpow_le_iff_le_log several least] at reached
    omega
  · rename_i missed
    rw [Int.zpow_le_iff_le_log several least] at missed
    omega

theorem scale_le_iff (several : 1 < base) (positive : 0 < den) (power : Int) :
    (scale base num den (-power)).2 ≤ (scale base num den (-power)).1 ↔
      (base : ℚ) ^ power ≤ (num : ℚ) / den := by
  have base_pos : (0 : ℚ) < base := by positivity
  have scaled := scale_pos num positive several (-power)
  have ratio := scale_ratio num den several (-power)
  rw [← Nat.cast_le (α := ℚ), ← one_le_div (by exact_mod_cast scaled), ratio, zpow_neg,
    ← div_eq_mul_inv, one_le_div (zpow_pos base_pos power)]

end

theorem leadingBit_eq {num den : Nat} (nonzero : num ≠ 0) (positive : 0 < den) :
    leadingBit num den = Int.log 2 ((num : ℚ) / den) := by
  have low (n : Nat) (nonzero : n ≠ 0) : ((2 : Nat) : ℚ) ^ (Nat.log2 n : Int) ≤ n := by
    rw [zpow_natCast]
    exact_mod_cast Nat.log2_self_le nonzero
  have high (n : Nat) : (n : ℚ) < ((2 : Nat) : ℚ) ^ ((Nat.log2 n : Int) + 1) := by
    rw [← Nat.cast_succ, zpow_natCast]
    exact_mod_cast Nat.lt_log2_self
  rw [log_ratio (by decide) (low num nonzero) (high num) (low den (by omega)) (high den),
    leadingBit, ← if_congr (scale_le_iff (by decide) positive _) rfl rfl]

end Double

namespace Decimal

theorem decimalLength_pos (n : Nat) : 0 < decimalLength n :=
  List.length_pos_iff.mpr Nat.toDigits_ne_nil

theorem lt_pow_decimalLength (n : Nat) : n < 10 ^ decimalLength n :=
  (Nat.length_toDigits_le_iff (by decide) (decimalLength_pos n)).mp (Nat.le_refl _)

theorem pow_decimalLength_le {n : Nat} (nonzero : n ≠ 0) : 10 ^ (decimalLength n - 1) ≤ n := by
  by_cases single : decimalLength n = 1
  · rw [single]
    exact Nat.one_le_iff_ne_zero.mpr nonzero
  · have positive := decimalLength_pos n
    by_contra less
    have short := (Nat.length_toDigits_le_iff (by decide) (by omega)).mpr (Nat.not_le.mp less)
    rw [← decimalLength] at short
    omega

theorem size_eq {num den : Nat} (nonzero : num ≠ 0) (positive : 0 < den) :
    size num den = Int.log 10 ((num : ℚ) / den) + 1 := by
  have pred (n : Nat) : ((decimalLength n - 1 : Nat) : Int) = (decimalLength n : Int) - 1 := by
    have := decimalLength_pos n
    omega
  have low (n : Nat) (nonzero : n ≠ 0) :
      ((10 : Nat) : ℚ) ^ ((decimalLength n : Int) - 1) ≤ n := by
    rw [← pred, zpow_natCast]
    exact_mod_cast pow_decimalLength_le nonzero
  have high (n : Nat) : (n : ℚ) < ((10 : Nat) : ℚ) ^ ((decimalLength n : Int) - 1 + 1) := by
    rw [Int.sub_add_cancel, zpow_natCast]
    exact_mod_cast lt_pow_decimalLength n
  have guess : (decimalLength num : Int) - 1 - (decimalLength den - 1) =
      decimalLength num - decimalLength den := by omega
  rw [Double.log_ratio (by decide) (low num nonzero) (high num) (low den (by omega)) (high den),
    guess, size, ← if_congr (Double.scale_le_iff (by decide) positive _) rfl rfl]
  have next (p : Prop) [Decidable p] (n : Int) :
      (if p then n + 1 else n) = (if p then n else n - 1) + 1 := by
    split <;> omega
  exact next _ _

end Decimal

namespace Double

/-- The natural number nearest to a rational one, of two the even one. -/
def nearest (x : ℚ) : Nat :=
  if 1 < 2 * (x - ⌊x⌋₊) ∨ 2 * (x - ⌊x⌋₊) = 1 ∧ ⌊x⌋₊ % 2 = 1 then ⌊x⌋₊ + 1 else ⌊x⌋₊

theorem roundDiv_eq (num : Nat) {den : Nat} (positive : 0 < den) :
    roundDiv num den = nearest ((num : ℚ) / den) := by
  have den_pos : (0 : ℚ) < den := by exact_mod_cast positive
  have rest : (num : ℚ) / den - (num / den : Nat) = ((num % den : Nat) : ℚ) / den := by
    have division : (num : ℚ) = den * (num / den : Nat) + (num % den : Nat) := by
      exact_mod_cast (Nat.div_add_mod num den).symm
    rw [sub_eq_iff_eq_add, div_add' _ _ _ den_pos.ne', div_left_inj' den_pos.ne', division]
    ring
  have twice : 2 * (((num % den : Nat) : ℚ) / den) = ((2 * (num % den) : Nat) : ℚ) / den := by
    push_cast
    ring
  rw [nearest, roundDiv]
  simp only [Nat.floor_div_eq_div, rest, twice, one_lt_div den_pos, div_eq_one_iff_eq den_pos.ne',
    Nat.cast_lt, Nat.cast_inj, Bool.or_eq_true, Bool.and_eq_true, decide_eq_true_eq]

theorem nearest_of_near {x : ℚ} (positive : 0 ≤ x) {n : Nat} (near : 2 * |x - n| < 1) :
    nearest x = n := by
  rcases le_or_gt (n : ℚ) x with above | below
  · rw [abs_of_nonneg (by linarith)] at near
    have floor : ⌊x⌋₊ = n := (Nat.floor_eq_iff positive).mpr ⟨above, by linarith⟩
    rw [nearest, floor, if_neg]
    rintro (far | ⟨tie, -⟩) <;> linarith
  · rw [abs_of_neg (by linarith)] at near
    obtain ⟨m, rfl⟩ : ∃ m, n = m + 1 := by
      cases n with
      | zero => exact absurd below (by push_cast; linarith)
      | succ m => exact ⟨m, rfl⟩
    push_cast at near below
    have floor : ⌊x⌋₊ = m := (Nat.floor_eq_iff positive).mpr ⟨by linarith, below⟩
    rw [nearest, floor, if_pos (.inl (by linarith))]

/-- The rank that is nearest to a positive number; beyond the range there are further ranks. -/
def rankOf (x : ℚ) : Nat :=
  let power : Int := max (-1074) (Int.log 2 x - 52)
  (power + 1074).toNat * binade + nearest (x / 2 ^ power)

def ofRank (negative : Bool) (rank : Nat) : Double :=
  if inRange : rank < limit then .finite negative ⟨rank, inRange⟩ else .infinite negative

theorem ofRatio_eq (negative : Bool) {num den : Nat} (nonzero : num ≠ 0) (positive : 0 < den) :
    ofRatio negative num den = ofRank negative (rankOf ((num : ℚ) / den)) := by
  have rounded (power : Int) : roundDiv (scale 2 num den (-power)).1 (scale 2 num den (-power)).2 =
      nearest ((num : ℚ) / den / 2 ^ power) := by
    rw [roundDiv_eq _ (scale_pos _ positive (by decide) _), scale_ratio _ _ (by decide), zpow_neg,
      ← div_eq_mul_inv]
    rfl
  rw [ofRatio, if_neg nonzero, ofRank, rankOf]
  simp only [leadingBit_eq nonzero positive, rounded]

theorem rank_eq (rank : Nat) :
    -1074 ≤ exponent rank ∧ rank = (exponent rank + 1074).toNat * binade + significand rank ∧
      significand rank < 2 * binade ∧ (exponent rank = -1074 ∨ binade ≤ significand rank) := by
  have division := Nat.div_add_mod rank binade
  have small : rank % binade < binade := Nat.mod_lt _ (by decide)
  rw [exponent, significand]
  generalize rank / binade = interval at division
  generalize rank % binade = extra at division small
  cases interval with
  | zero =>
      have zero : ((-1074 : Int) + 1074).toNat = 0 := rfl
      rw [if_pos rfl, if_pos rfl, zero]
      refine ⟨by omega, by omega, by omega, .inl rfl⟩
  | succ index =>
      have back : (((index + 1 : Nat) : Int) - 1075 + 1074).toNat = index := by omega
      rw [if_neg (by omega), if_neg (by omega), back]
      refine ⟨by omega, ?_, by omega, .inr (by omega)⟩
      rw [← division, Nat.mul_comm, Nat.add_mul]
      omega

theorem magnitude_pos {rank : Nat} (nonzero : rank ≠ 0) : 0 < magnitude rank := by
  have significant : significand rank ≠ 0 := by
    rw [significand]
    split
    · exact nonzero
    · have : 0 < binade := by decide
      omega
  have : (0 : ℚ) < significand rank := by exact_mod_cast Nat.pos_of_ne_zero significant
  exact mul_pos this (zpow_pos (by norm_num) _)

/-- A number that is closer to a double than any other double can be is rounded to it. -/
theorem rankOf_of_near {rank : Nat} (nonzero : rank ≠ 0) {x : ℚ}
    (near : |x - magnitude rank| * 2 ^ 54 < magnitude rank) : rankOf x = rank := by
  have positive := magnitude_pos nonzero
  obtain ⟨least, place, few, normal⟩ := rank_eq rank
  have width : binade = 2 ^ 52 := by decide
  rw [width] at few normal
  rw [magnitude] at near positive
  generalize significand rank = significant at *
  generalize exponent rank = exponential at *
  have unit : (0 : ℚ) < 2 ^ exponential := zpow_pos (by norm_num) _
  -- Everything is counted in units of the last place.
  obtain ⟨y, rfl⟩ : ∃ y : ℚ, x = y * 2 ^ exponential := ⟨x / 2 ^ exponential, by field_simp⟩
  rw [← sub_mul, abs_mul, abs_of_pos unit, mul_right_comm, mul_lt_mul_iff_left₀ unit] at near
  have count : (significant : ℚ) ≤ 2 ^ 53 - 1 := by
    have : significant + 1 ≤ 2 ^ 53 := by omega
    have : (significant : ℚ) + 1 ≤ 2 ^ 53 := by exact_mod_cast this
    linarith
  have several : (0 : ℚ) < significant := (mul_pos_iff_of_pos_right unit).mp positive
  have below : (significant - y) * 2 ^ 54 < significant := by
    have := neg_le_abs (y - significant)
    linarith
  have above : (y - significant) * 2 ^ 54 < significant := by
    have := le_abs_self (y - significant)
    linarith
  have real : 0 < y := by linarith
  have log_lt (bits : Nat) :
      Int.log 2 (y * 2 ^ exponential) < exponential + bits ↔ y < 2 ^ bits := by
    rw [← Int.lt_zpow_iff_log_lt (by decide) (mul_pos real unit), Nat.cast_ofNat,
      zpow_add₀ two_ne_zero, zpow_natCast, mul_comm, mul_lt_mul_iff_right₀ unit]
  have upper := (log_lt 53).mpr (by linarith)
  rw [rankOf]
  by_cases same : exponential = -1074 ∨ (2 : ℚ) ^ 52 ≤ y
  · have power : max (-1074) (Int.log 2 (y * 2 ^ exponential) - 52) = exponential := by
      rcases same with rfl | large
      · omega
      · have lower := (log_lt 52).not.mpr (not_lt.mpr large)
        omega
    rw [power, mul_div_cancel_right₀ _ unit.ne',
      nearest_of_near (n := significant) real.le (by linarith)]
    exact place.symm
  · -- Below a power of two the units are half as large.
    obtain ⟨other, small⟩ := not_or.mp same
    rw [not_le] at small
    have lowest : significant = 2 ^ 52 := by
      by_contra more
      have more : 2 ^ 52 + 1 ≤ significant := by omega
      have more : (2 : ℚ) ^ 52 + 1 ≤ significant := by exact_mod_cast more
      linarith
    subst lowest
    push_cast at near below above
    have power : max (-1074) (Int.log 2 (y * 2 ^ exponential) - 52) = exponential - 1 := by
      have lower := (log_lt 51).not.mpr (not_lt.mpr (by linarith))
      have lower' := (log_lt 52).mpr small
      omega
    have twice : y * 2 ^ exponential / 2 ^ (exponential - 1) = 2 * y := by
      rw [zpow_sub₀ two_ne_zero, zpow_one]
      field_simp
    have rounded : nearest (2 * y) = 2 ^ 53 := by
      apply nearest_of_near (by linarith)
      have half : 2 * y - (2 ^ 53 : Nat) = 2 * (y - 4503599627370496) := by
        push_cast
        ring
      rw [half, abs_mul, abs_two]
      linarith
    rw [power, twice, rounded, place]
    have next : (exponential + 1074).toNat = (exponential - 1 + 1074).toNat + 1 := by omega
    rw [next, Nat.add_mul, width]
    omega

theorem limit_le_rankOf {x : ℚ} (large : 2 ^ 1030 ≤ x) : limit ≤ rankOf x := by
  have positive : (0 : ℚ) < 2 ^ 1030 := by positivity
  have bits : 1030 ≤ Int.log 2 x := by
    rw [← Int.zpow_le_iff_le_log (by decide) (lt_of_lt_of_le positive large)]
    exact_mod_cast large
  have power : 2047 ≤ (max (-1074) (Int.log 2 x - 52) + 1074).toNat := by omega
  calc limit ≤ (max (-1074) (Int.log 2 x - 52) + 1074).toNat * binade :=
        Nat.mul_le_mul_right _ power
    _ ≤ rankOf x := Nat.le_add_right _ _

theorem rankOf_eq_zero {x : ℚ} (positive : 0 < x) (small : x < 2 ^ (-1076 : Int)) :
    rankOf x = 0 := by
  have bits : Int.log 2 x < -1076 := by
    rw [← Int.lt_zpow_iff_log_lt (by decide) positive]
    exact_mod_cast small
  have power : max (-1074) (Int.log 2 x - 52) = -1074 := by omega
  have unit : (0 : ℚ) < 2 ^ (-1074 : Int) := zpow_pos (by norm_num) _
  have quarter : x / 2 ^ (-1074 : Int) < 1 / 4 := by
    rw [div_lt_iff₀ unit]
    calc x < 2 ^ (-1076 : Int) := small
      _ = 1 / 4 * 2 ^ (-1074 : Int) := by
        rw [show (-1076 : Int) = -2 + -1074 by rfl, zpow_add₀ two_ne_zero]
        norm_num
  have least : 0 ≤ x / 2 ^ (-1074 : Int) := (div_pos positive unit).le
  have rounded : nearest (x / 2 ^ (-1074 : Int)) = 0 := by
    apply nearest_of_near least
    rw [Nat.cast_zero, sub_zero, abs_of_nonneg least]
    linarith
  rw [rankOf, power, rounded]
  rfl

theorem ofDecimal_eq (negative : Bool) {digits : Nat} (nonzero : digits ≠ 0) (power : Int) :
    ofDecimal negative digits power = ofRank negative (rankOf (digits * 10 ^ power)) := by
  have positive : (0 : ℚ) < digits := by exact_mod_cast Nat.pos_of_ne_zero nonzero
  have whole : (0 : ℚ) < digits * 10 ^ power := mul_pos positive (zpow_pos (by norm_num) _)
  rw [ofDecimal, if_neg nonzero]
  split
  · rename_i great
    have large : (2 : ℚ) ^ 1030 ≤ digits * 10 ^ power := by
      have one : (1 : ℚ) ≤ digits := by exact_mod_cast Nat.pos_of_ne_zero nonzero
      have bound : 2 ^ 1030 ≤ 10 ^ 311 := by decide +kernel
      calc (2 : ℚ) ^ 1030 ≤ 10 ^ (311 : Int) := by exact_mod_cast bound
        _ ≤ 10 ^ power := zpow_le_zpow_right₀ (by norm_num) (by omega)
        _ ≤ digits * 10 ^ power := le_mul_of_one_le_left (zpow_pos (by norm_num) _).le one
    rw [ofRank, dif_neg (Nat.not_lt.mpr (limit_le_rankOf large))]
  · split
    · rename_i small
      have bits : (digits : ℚ) < 2 ^ ((Nat.log2 digits : Int) + 1) := by
        have bits : digits < 2 ^ (Nat.log2 digits + 1) := Nat.lt_log2_self
        exact_mod_cast bits
      have tenth : (10 : ℚ) ^ power ≤ 2 ^ (3 * power) := by
        obtain ⟨count, same⟩ := Int.eq_ofNat_of_zero_le (show 0 ≤ -power by omega)
        obtain rfl : power = -(count : Int) := by omega
        have eighth : (2 : ℚ) ^ (3 * -(count : Int)) = (8 ^ count)⁻¹ := by
          rw [zpow_mul, zpow_neg, zpow_natCast]
          norm_num
        rw [eighth, zpow_neg, zpow_natCast]
        exact inv_anti₀ (by positivity) (pow_le_pow_left₀ (by norm_num) (by norm_num) count)
      have tiny : (digits : ℚ) * 10 ^ power < 2 ^ (-1076 : Int) := by
        calc (digits : ℚ) * 10 ^ power
            < 2 ^ ((Nat.log2 digits : Int) + 1) * 2 ^ (3 * power) :=
              mul_lt_mul bits tenth (zpow_pos (by norm_num) _) (zpow_pos (by norm_num) _).le
          _ = 2 ^ ((Nat.log2 digits : Int) + 1 + 3 * power) := (zpow_add₀ two_ne_zero _ _).symm
          _ ≤ 2 ^ (-1076 : Int) := zpow_le_zpow_right₀ (by norm_num) (by omega)
      rw [rankOf_eq_zero whole tiny]
      rfl
    · have ratio := scale_ratio digits 1 (show 1 < 10 by decide) power
      rw [Nat.cast_one, div_one] at ratio
      have num : (scale 10 digits 1 power).1 ≠ 0 := by
        intro zero
        rw [zero, Nat.cast_zero, zero_div] at ratio
        exact whole.ne ratio
      have den : 0 < (scale 10 digits 1 power).2 := scale_pos digits Nat.one_pos (by decide) power
      have rounded := ofRatio_eq negative num den
      rwa [ratio] at rounded

end Double

theorem Decimal.toDouble_eq {d : Decimal} (nonzero : d.digits ≠ 0) (negative : Bool) :
    d.toDouble negative = Double.ofRank negative (Double.rankOf d.value) :=
  Double.ofDecimal_eq negative nonzero d.power

end Flowfile
