import Flowfile.Proofs.Number.Range
import Flowfile.Proofs.Number.Reading
import Flowfile.Proofs.Expr.Numeral

/-! Whole numbers as doubles. Below `2 ^ 53` each is a double of its own; from there on rounding may
move it, but never below that bound. -/

namespace Flowfile

namespace Double

def signed (negative : Bool) (n : Nat) : Int := if negative then -(n : Int) else n

theorem significand_rank (index : Nat) {extra : Nat} (small : extra < binade) :
    significand ((index + 1) * binade + extra) = binade + extra ∧
      exponent ((index + 1) * binade + extra) = (index : Int) - 1074 := by
  have quotient : ((index + 1) * binade + extra) / binade = index + 1 := by
    rw [Nat.mul_comm, Nat.mul_add_div (by decide), Nat.div_eq_of_lt small, Nat.add_zero]
  have remainder : ((index + 1) * binade + extra) % binade = extra := by
    rw [Nat.mul_comm, Nat.mul_add_mod, Nat.mod_eq_of_lt small]
  rw [significand, exponent, quotient, remainder, if_neg (by omega), if_neg (by omega)]
  refine ⟨rfl, ?_⟩
  omega

theorem toInt?_of_nonneg {negative : Bool} {rank : Fin limit} {power : Nat}
    (whole : exponent rank = power) :
    (finite negative rank).toInt? = some (signed negative (significand rank * 2 ^ power)) := by
  rw [toInt?, whole, scale, if_pos (by omega), Int.toNat_natCast]
  dsimp only
  rw [if_pos (Nat.mod_one _), Nat.div_one]
  rfl

theorem toInt?_of_multiple {negative : Bool} {rank : Fin limit} {power n : Nat}
    (below : exponent rank = -(power : Int)) (multiple : significand rank = n * 2 ^ power) :
    (finite negative rank).toInt? = some (signed negative n) := by
  cases power with
  | zero =>
      have zero : exponent rank = (0 : Nat) := below
      rw [toInt?_of_nonneg zero, multiple, Nat.pow_zero, Nat.mul_one, Nat.mul_one]
  | succ power =>
      have down : (-(-((power + 1 : Nat) : Int))).toNat = power + 1 := by omega
      have base : Nat.pow 2 (power + 1) = 2 ^ (power + 1) := rfl
      rw [toInt?, below, scale, if_neg (by omega), down, multiple, Nat.one_mul, base]
      dsimp only
      rw [if_pos (Nat.mul_mod_left _ _), Nat.mul_div_cancel _ (Nat.two_pow_pos _)]
      rfl

theorem roundDiv_mul (n : Nat) {den : Nat} (positive : 0 < den) : roundDiv (n * den) den = n := by
  rw [roundDiv, Nat.mul_mod_left, Nat.mul_div_cancel n positive, if_neg]
  simp [Nat.ne_of_lt positive]

section

variable {significant : Nat} (low : 2 ^ 52 ≤ significant) (high : significant < 2 ^ 53)

include low high

theorem wholeRank_mul (power : Nat) :
    wholeRank (significant * 2 ^ power) = (power + 1074) * binade + significant := by
  have bits : Nat.log2 (significant * 2 ^ power) = power + 52 := by
    rw [Nat.log2_eq_iff (Nat.mul_ne_zero (by omega) (Nat.two_pow_pos power).ne')]
    constructor
    · rw [Nat.pow_add, Nat.mul_comm]
      exact Nat.mul_le_mul_right _ low
    · rw [show power + 52 + 1 = 53 + power by omega, Nat.pow_add]
      exact Nat.mul_lt_mul_of_pos_right high (Nat.two_pow_pos _)
  rw [wholeRank, bits]
  split
  · rename_i few
    obtain rfl : power = 0 := by omega
    simp
  · rw [Nat.add_sub_cancel, roundDiv_mul _ (Nat.two_pow_pos _)]

theorem wholeRank_of_mul {n power : Nat} (split : significant = n * 2 ^ power) :
    wholeRank n + power * binade = 1074 * binade + significant := by
  have positive : 1 ≤ n := by
    rcases Nat.eq_zero_or_pos n with rfl | positive
    · omega
    · exact positive
  have few : power < 53 := by
    apply (Nat.pow_lt_pow_iff_right (show 1 < 2 by decide)).mp
    calc 2 ^ power ≤ n * 2 ^ power := Nat.le_mul_of_pos_left _ positive
      _ < 2 ^ 53 := split ▸ high
  have bits : Nat.log2 n = 52 - power := by
    rw [Nat.log2_eq_iff (Nat.ne_of_gt positive)]
    constructor
    · apply Nat.le_of_mul_le_mul_right _ (Nat.two_pow_pos power)
      rw [← Nat.pow_add, ← split, Nat.sub_add_cancel (by omega)]
      exact low
    · apply Nat.lt_of_mul_lt_mul_right (a := 2 ^ power)
      rw [← Nat.pow_add, ← split, show 52 - power + 1 + power = 53 by omega]
      exact high
  rw [wholeRank, bits, if_pos (by omega), show 52 - (52 - power) = power by omega, ← split]
  have sum : 52 - power + 1022 + power = 1074 := by omega
  rw [Nat.add_right_comm, ← Nat.add_mul, sum]

end

theorem toInt?_ofRatio_small (negative : Bool) {n : Nat} (small : n < 2 ^ 53) :
    (ofRatio negative n 1).toInt? = some (signed negative n) := by
  by_cases nothing : n = 0
  · subst nothing
    obtain ⟨power, least⟩ : ∃ power : Nat, exponent 0 = -(power : Int) := ⟨1074, rfl⟩
    exact toInt?_of_multiple least (Nat.zero_mul (2 ^ power)).symm
  have low : 2 ^ Nat.log2 n ≤ n := Nat.log2_self_le nothing
  have high : n < 2 ^ (Nat.log2 n + 1) := Nat.lt_log2_self
  have few : Nat.log2 n ≤ 52 := by
    have := (Nat.log2_lt nothing).mpr small
    omega
  generalize Nat.log2 n = bits at low high few
  -- All 53 bits of the significand are used, with zeros behind those of the number.
  obtain ⟨power, sum⟩ := Nat.exists_eq_add_of_le few
  have least : 2 ^ 52 ≤ n * 2 ^ power := by
    calc 2 ^ 52 = 2 ^ bits * 2 ^ power := by rw [← Nat.pow_add, ← sum]
      _ ≤ n * 2 ^ power := Nat.mul_le_mul_right _ low
  have greatest : n * 2 ^ power < 2 ^ 53 := by
    calc n * 2 ^ power < 2 ^ (bits + 1) * 2 ^ power :=
          Nat.mul_lt_mul_of_pos_right high (Nat.two_pow_pos _)
      _ = 2 ^ 53 := by rw [← Nat.pow_add]; congr 1; omega
  have whole : (2 : Nat) ^ 52 = binade := by decide
  obtain ⟨extra, split⟩ := Nat.exists_eq_add_of_le least
  rw [whole] at split
  have place : wholeRank n = (bits + 1022 + 1) * binade + extra := by
    have rank := wholeRank_of_mul least greatest rfl
    have zeros : 1074 = bits + 1022 + power := by omega
    rw [split, zeros, Nat.add_mul (bits + 1022)] at rank
    rw [Nat.add_mul (bits + 1022)]
    omega
  have inRange : wholeRank n < limit := by
    have most : (bits + 1022 + 1) * binade ≤ 1075 * binade := Nat.mul_le_mul_right _ (by omega)
    have top : limit = 2047 * binade := rfl
    omega
  obtain ⟨significant, exponential⟩ := significand_rank (bits + 1022) (show extra < binade by omega)
  rw [← place] at significant exponential
  rw [ofRatio_one negative nothing, dif_pos inRange]
  have below : exponent (wholeRank n) = -(power : Int) := by
    rw [exponential]
    omega
  exact toInt?_of_multiple below (significant.trans split.symm)

theorem toInt?_ofRatio_large {negative : Bool} {n : Nat} (large : 2 ^ 53 ≤ n) {i : Int}
    (same : (ofRatio negative n 1).toInt? = some i) :
    ∃ m, 2 ^ 53 ≤ m ∧ i = signed negative m := by
  have nothing : n ≠ 0 := by omega
  have low : 2 ^ Nat.log2 n ≤ n := Nat.log2_self_le nothing
  have many : 53 ≤ Nat.log2 n := (Nat.le_log2 nothing).mpr large
  have rank : wholeRank n =
      (Nat.log2 n + 1022) * binade + roundDiv n (2 ^ (Nat.log2 n - 52)) := by
    rw [wholeRank, if_neg (by omega)]
  rw [ofRatio_one negative nothing] at same
  generalize Nat.log2 n = bits at low many rank
  have power (carry : Nat) :
      ((bits + 1022 + carry : Nat) : Int) - 1074 = ((bits - 52 + carry : Nat) : Int) := by
    omega
  have twice (carry : Nat) : 1 ≤ bits - 52 + carry := by omega
  have least : binade ≤ roundDiv n (2 ^ (bits - 52)) := by
    have quotient : binade ≤ n / 2 ^ (bits - 52) := by
      rw [Nat.le_div_iff_mul_le (Nat.two_pow_pos _)]
      calc binade * 2 ^ (bits - 52) = 2 ^ 52 * 2 ^ (bits - 52) := rfl
        _ = 2 ^ bits := by rw [← Nat.pow_add]; congr 1; omega
        _ ≤ n := low
    rw [roundDiv]
    split <;> omega
  generalize roundDiv n (2 ^ (bits - 52)) = rounded at rank least
  -- Rounding up may carry into the next binade.
  have division : binade * (rounded / binade) + rounded % binade = rounded :=
    Nat.div_add_mod rounded binade
  have carried : 0 < rounded / binade := Nat.div_pos least (by decide)
  have small : rounded % binade < binade := Nat.mod_lt _ (by decide)
  obtain ⟨carry, next⟩ := Nat.exists_eq_succ_of_ne_zero (Nat.ne_of_gt carried)
  generalize rounded % binade = extra at division small
  have place : wholeRank n = (bits + 1022 + carry + 1) * binade + extra := by
    rw [rank, ← division, next, Nat.mul_comm binade, ← Nat.add_assoc, ← Nat.add_mul]
    rfl
  obtain ⟨significant, exponential⟩ := significand_rank (bits + 1022 + carry) small
  rw [← place] at significant exponential
  split at same
  · rename_i inRange
    rw [toInt?_of_nonneg (exponential.trans (power carry)), Option.some.injEq] at same
    refine ⟨_, ?_, same.symm⟩
    change 2 ^ 53 ≤ significand (wholeRank n) * 2 ^ (bits - 52 + carry)
    rw [significant]
    calc 2 ^ 53 = binade * 2 ^ 1 := by decide
      _ ≤ (binade + extra) * 2 ^ (bits - 52 + carry) :=
        Nat.mul_le_mul (Nat.le_add_right _ _) (Nat.pow_le_pow_right (by decide) (twice carry))
  · cases same

end Double

theorem Decimal.ofLiteral_digits {text : Text} (digits : text.isDigits = true) (negative : Bool) :
    (Decimal.ofLiteral text).toDouble negative =
      .ofRatio negative (Text.readDigits 10 text) 1 := by
  rw [Decimal.ofLiteral_run ((Text.isDigits_iff text).mp digits).2]
  generalize Text.readDigits 10 text = n
  change Double.ofDecimal negative n 0 = _
  rw [Double.ofDecimal]
  by_cases nothing : n = 0
  · rw [if_pos nothing, nothing]
    rfl
  · rw [if_neg nothing, if_neg (by decide), if_neg (by omega), Double.scale, if_pos (by decide)]
    exact congrArg (fun m => Double.ofRatio negative m 1) (Nat.mul_one n)

theorem Text.toNumber?_digits {text : Text} (digits : text.isDigits = true) :
    toNumber? text = some (.ofRatio false (readDigits 10 text) 1) := by
  rw [toNumber?_decimal (isDecimal_of_isDigits digits), Decimal.ofLiteral_digits digits]

end Flowfile
