import Flowfile.Proofs.Number.Whole

/-! Doubles that are whole numbers. The order of the doubles sees each of them at the place of its
integer, and up to `2 ^ 53` no integer shares its place with another one. -/

namespace Flowfile

namespace Double

theorem toInt?_eq_some {negative : Bool} {rank : Fin limit} {i : Int}
    (whole : (finite negative rank).toInt? = some i) :
    ∃ n power : Nat, i = signed negative n ∧
      (exponent rank = power ∧ n = significand rank * 2 ^ power ∨
        exponent rank = -(power : Int) ∧ significand rank = n * 2 ^ power) := by
  rcases Int.eq_nat_or_neg (exponent rank) with ⟨power, up | down⟩
  · rw [toInt?_of_nonneg up, Option.some.injEq] at whole
    exact ⟨_, power, whole.symm, .inl ⟨up, rfl⟩⟩
  · by_cases multiple : 2 ^ power ∣ significand rank
    · obtain ⟨n, split⟩ := multiple
      rw [Nat.mul_comm] at split
      rw [toInt?_of_multiple down split, Option.some.injEq] at whole
      exact ⟨n, power, whole.symm, .inr ⟨down, split⟩⟩
    · exfalso
      cases power with
      | zero => exact multiple (Nat.pow_zero 2 ▸ Nat.one_dvd _)
      | succ power =>
          have back : (-(-((power + 1 : Nat) : Int))).toNat = power + 1 := by omega
          have base : Nat.pow 2 (power + 1) = 2 ^ (power + 1) := rfl
          rw [toInt?, down, scale, if_neg (by omega), back, Nat.one_mul, base] at whole
          dsimp only at whole
          rw [if_neg fun zero => multiple (Nat.dvd_of_mod_eq_zero zero)] at whole
          cases whole

theorem wholeRank_of_exact {rank : Fin limit} {n power : Nat} (nonzero : n ≠ 0)
    (exact : exponent rank = power ∧ n = significand rank * 2 ^ power ∨
      exponent rank = -(power : Int) ∧ significand rank = n * 2 ^ power) :
    wholeRank n = rank := by
  have division := Nat.div_add_mod rank.val binade
  have small : rank.val % binade < binade := Nat.mod_lt _ (by decide)
  have width : binade = 2 ^ 52 := by decide
  cases interval : rank.val / binade with
  | zero =>
      -- A subnormal number other than zero is no integer.
      exfalso
      rw [exponent, significand, if_pos interval, if_pos interval] at exact
      rw [interval] at division
      obtain ⟨least, -⟩ | ⟨least, split⟩ := exact
      · omega
      · have great : 2 ^ 52 ≤ n * 2 ^ power :=
          Nat.le_trans (Nat.pow_le_pow_right (by decide) (by omega))
            (Nat.le_mul_of_pos_left _ (Nat.pos_of_ne_zero nonzero))
        omega
  | succ index =>
      have place : rank.val = (index + 1) * binade + rank.val % binade := by
        rw [Nat.mul_comm, ← interval]
        exact division.symm
      obtain ⟨significant, exponential⟩ := significand_rank index small
      rw [← place] at significant exponential
      rw [significant, exponential] at exact
      have low : 2 ^ 52 ≤ binade + rank.val % binade := by omega
      have high : binade + rank.val % binade < 2 ^ 53 := by omega
      obtain ⟨up, rfl⟩ | ⟨down, split⟩ := exact
      · obtain rfl : index = power + 1074 := by omega
        rw [wholeRank_mul low high]
        rw [Nat.add_mul (power + 1074)] at place
        omega
      · have ranks := wholeRank_of_mul low high split
        have sum : index + power = 1074 := by omega
        rw [← sum, Nat.add_mul index] at ranks
        rw [Nat.add_mul index] at place
        omega

theorem ofInt_signed (negative : Bool) {n : Nat} (nonzero : n ≠ 0) :
    ofInt (signed negative n) = ofRatio negative n 1 := by
  cases negative with
  | true =>
      have below : signed true n < 0 := by
        change -(n : Int) < 0
        omega
      have size : (signed true n).natAbs = n := (Int.natAbs_neg n).trans (Int.natAbs_natCast n)
      rw [ofInt, size, decide_eq_true below]
  | false =>
      have above : ¬signed false n < 0 := by
        change ¬(n : Int) < 0
        omega
      have size : (signed false n).natAbs = n := Int.natAbs_natCast n
      rw [ofInt, size, decide_eq_false above]

theorem eq_zero_of_significand {rank : Nat} (zero : significand rank = 0) : rank = 0 := by
  rw [significand] at zero
  split at zero
  · exact zero
  · have : 0 < binade := by decide
    omega

/-- The double of an integer that a number equals exactly is that number, but for the sign of
zero. -/
theorem place_ofInt {d : Double} {i : Int} (whole : d.toInt? = some i) :
    (ofInt i).place = d.place := by
  cases d with
  | nan | infinite _ => cases whole
  | finite negative rank =>
      obtain ⟨n, power, rfl, exact⟩ := toInt?_eq_some whole
      by_cases nothing : n = 0
      · subst nothing
        have zero : significand rank = 0 := by
          obtain ⟨-, product⟩ | ⟨-, split⟩ := exact
          · have positive := Nat.two_pow_pos power
            rcases Nat.mul_eq_zero.mp product.symm with zero | zero
            · exact zero
            · omega
          · rw [split, Nat.zero_mul]
        have first : rank.val = 0 := eq_zero_of_significand zero
        have zero : signed negative 0 = 0 := by cases negative <;> rfl
        rw [zero, place, first]
        cases negative <;> rfl
      · have same := wholeRank_of_exact nothing exact
        have inRange : wholeRank n < limit := same ▸ rank.isLt
        rw [ofInt_signed negative nothing, ofRatio_one negative nothing, dif_pos inRange]
        simp only [place, same]

theorem place_isSome {d : Double} (number : d.isNan = false) : ∃ i, d.place = some i := by
  cases d with
  | nan => cases number
  | infinite negative => exact ⟨_, rfl⟩
  | finite negative rank => exact ⟨_, rfl⟩

theorem toInt?_congr {d e : Double} (same : d.place = e.place) : d.toInt? = e.toInt? := by
  have top : (0 : Int) < limit := by decide
  cases d <;> cases e <;> simp only [place, reduceCtorEq, Option.some.injEq] at same
  all_goals try rfl
  case infinite.finite negative negative' rank =>
    have := rank.isLt
    split at same <;> split at same <;> omega
  case finite.infinite negative rank negative' =>
    have := rank.isLt
    split at same <;> split at same <;> omega
  case finite.finite negative rank negative' rank' =>
    obtain rfl : rank = rank' := by
      apply Fin.ext
      split at same <;> split at same <;> omega
    by_cases signs : negative = negative'
    · rw [signs]
    · have zero : rank.val = 0 := by
        cases negative <;> cases negative' <;> simp at signs same <;> omega
      obtain ⟨power, least⟩ : ∃ power : Nat, exponent 0 = -(power : Int) := ⟨1074, rfl⟩
      rw [← zero] at least
      have nothing : significand rank = 0 * 2 ^ power := by
        rw [zero, Nat.zero_mul]
        rfl
      rw [toInt?_of_multiple least nothing, toInt?_of_multiple least nothing]
      cases negative <;> cases negative' <;> rfl

theorem toInt?_ofInt {i : Int} (small : i.natAbs ≤ 2 ^ 53) : (ofInt i).toInt? = some i := by
  have value : signed (i < 0) i.natAbs = i := by
    rw [signed]
    split <;> rename_i sign <;> simp at sign <;> omega
  rcases Nat.lt_or_eq_of_le small with below | edge
  · rw [ofInt, toInt?_ofRatio_small _ below, value]
  · rcases Int.natAbs_eq i with same | same <;> rw [same, edge] <;> decide +kernel

end Double

end Flowfile
