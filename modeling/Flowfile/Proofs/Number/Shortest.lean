import Flowfile.Proofs.Number.Rounding

/-! The shortest decimal of a double. It reads back as the double, because seventeen digits always
do, and has no zeros at its end. -/

namespace Flowfile

namespace Double

theorem ofRank_eq (negative : Bool) (rank : Fin limit) :
    ofRank negative rank = .finite negative rank :=
  dif_pos rank.isLt

theorem rankOf_of_place {d : Decimal} {rank : Fin limit} (nonzero : rank.val ≠ 0)
    (reads : (d.toDouble false).place = some (rank.val : Int)) :
    d.digits ≠ 0 ∧ rankOf d.value = rank := by
  have digits : d.digits ≠ 0 := by
    intro vanishes
    rw [Decimal.toDouble, ofDecimal, if_pos vanishes] at reads
    simp only [zero, place, Option.some.injEq] at reads
    omega
  refine ⟨digits, ?_⟩
  rw [Decimal.toDouble_eq digits, ofRank] at reads
  split at reads
  · rename_i inRange
    simpa [place] using reads
  · have := rank.isLt
    simp only [place, Option.some.injEq] at reads
    omega

end Double

namespace Decimal

theorem value_pos {d : Decimal} (nonzero : d.digits ≠ 0) : 0 < d.value := by
  have : (0 : ℚ) < d.digits := by exact_mod_cast Nat.pos_of_ne_zero nonzero
  exact mul_pos this (zpow_pos (by norm_num) _)

section

variable {num den : Nat} (nonzero : num ≠ 0) (positive : 0 < den)

include nonzero positive

theorem grid_bounds (count : Nat) :
    (10 : ℚ) ^ ((count : Int) - 1) ≤ (num : ℚ) / den / 10 ^ (size num den - count) ∧
      (num : ℚ) / den / 10 ^ (size num den - count) < 10 ^ count := by
  have real : (0 : ℚ) < (num : ℚ) / den :=
    div_pos (by exact_mod_cast Nat.pos_of_ne_zero nonzero) (by exact_mod_cast positive)
  have ten : (10 : ℚ) ≠ 0 := by norm_num
  have low := Int.zpow_log_le_self (show 1 < 10 by decide) real
  have high := Int.lt_zpow_succ_log_self (show 1 < 10 by decide) ((num : ℚ) / den)
  rw [size_eq nonzero positive]
  generalize Int.log 10 ((num : ℚ) / den) = log at low high ⊢
  rw [Nat.cast_ofNat] at low high
  have unit : (0 : ℚ) < 10 ^ (log + 1 - count) := zpow_pos (by norm_num) _
  have first : (count : Int) - 1 + (log + 1 - count) = log := by omega
  have last : (count : Int) + (log + 1 - count) = log + 1 := by omega
  constructor
  · rwa [le_div_iff₀ unit, ← zpow_add₀ ten, first]
  · rwa [div_lt_iff₀ unit, ← zpow_natCast, ← zpow_add₀ ten, last]

end

theorem scale_grid (num den count : Nat) :
    let parts := Double.scale 10 num den (-(size num den - count))
    (parts.1 : ℚ) / parts.2 = (num : ℚ) / den / 10 ^ (size num den - count) ∧
      parts.1 / parts.2 = ⌊(num : ℚ) / den / 10 ^ (size num den - count)⌋₊ := by
  intro parts
  have ratio : (parts.1 : ℚ) / parts.2 = (num : ℚ) / den / 10 ^ (size num den - count) := by
    rw [Double.scale_ratio _ _ (by decide), zpow_neg, ← div_eq_mul_inv]
    rfl
  exact ⟨ratio, by rw [← ratio, Nat.floor_div_eq_div]⟩

theorem readingBack?_eq_some {rank num den count : Nat} {d : Decimal}
    (found : readingBack? rank num den count = some d) :
    (d.toDouble false).place = some (rank : Int) ∧
      d.digits ≤ (Double.scale 10 num den (-(size num den - count))).1 /
        (Double.scale 10 num den (-(size num den - count))).2 + 1 := by
  rw [readingBack?] at found
  dsimp only at found
  split at found
  · rename_i both
    simp only [Bool.and_eq_true, decide_eq_true_eq] at both
    split at found
    · cases found
      exact ⟨both.1, Nat.le_succ _⟩
    · cases found
      exact ⟨both.2, Nat.le_refl _⟩
  · split at found
    · rename_i reads
      cases found
      exact ⟨of_decide_eq_true reads, Nat.le_succ _⟩
    · split at found
      · rename_i reads
        cases found
        exact ⟨of_decide_eq_true reads, Nat.le_refl _⟩
      · cases found

theorem readingBack?_isSome {rank num den count : Nat} {d : Decimal}
    (reads : (d.toDouble false).place = some (rank : Int))
    (power : d.power = size num den - count)
    (around : d.digits = (Double.scale 10 num den (-(size num den - count))).1 /
          (Double.scale 10 num den (-(size num den - count))).2 ∨
        d.digits = (Double.scale 10 num den (-(size num den - count))).1 /
          (Double.scale 10 num den (-(size num den - count))).2 + 1) :
    (readingBack? rank num den count).isSome = true := by
  obtain ⟨digits, power'⟩ := d
  dsimp only at power around
  subst power
  rw [readingBack?]
  rcases around with rfl | rfl
  · simp only [reads, decide_true, Bool.true_and]
    split
    · rfl
    · rfl
  · simp only [reads, decide_true, Bool.and_true]
    split
    · rfl
    · rfl

theorem place_of_near {d : Decimal} {rank : Fin Double.limit} (nonzero : rank.val ≠ 0)
    (near : |d.value - Double.magnitude rank| * 2 ^ 54 < Double.magnitude rank) :
    (d.toDouble false).place = some (rank.val : Int) := by
  have digits : d.digits ≠ 0 := by
    intro zero
    have positive := Double.magnitude_pos nonzero
    rw [value, zero, Nat.cast_zero, zero_mul, zero_sub, abs_neg, abs_of_pos positive] at near
    linarith
  rw [toDouble_eq digits, Double.rankOf_of_near nonzero near, Double.ofRank_eq]
  rfl

/-- Seventeen digits are enough: of the decimals around a number the nearer one is closer to it than
any other double can be. -/
theorem readingBack?_seventeen {rank : Fin Double.limit} (nonzero : rank.val ≠ 0) {num den : Nat}
    (positive : 0 < den) (ratio : (num : ℚ) / den = Double.magnitude rank) :
    (readingBack? rank num den 17).isSome = true := by
  have real := Double.magnitude_pos nonzero
  have num_ne : num ≠ 0 := by
    rintro rfl
    rw [Nat.cast_zero, zero_div] at ratio
    exact real.ne ratio
  obtain ⟨many, -⟩ := grid_bounds num_ne positive 17
  obtain ⟨-, floor⟩ := scale_grid num den 17
  have unit : (0 : ℚ) < 10 ^ (size num den - (17 : Nat)) := zpow_pos (by norm_num) _
  have back : (num : ℚ) / den / 10 ^ (size num den - (17 : Nat)) *
      10 ^ (size num den - (17 : Nat)) = Double.magnitude rank := by
    rw [div_mul_cancel₀ _ unit.ne', ratio]
  generalize (num : ℚ) / den / 10 ^ (size num den - (17 : Nat)) = y at many floor back
  have near {m : Nat} (half : |m - y| ≤ 1 / 2) :
      ((⟨m, size num den - (17 : Nat)⟩ : Decimal).toDouble false).place =
        some (rank.val : Int) := by
    apply place_of_near nonzero
    rw [value, ← back, ← sub_mul, abs_mul, abs_of_pos unit, mul_right_comm]
    apply mul_lt_mul_of_pos_right _ unit
    norm_num at many ⊢
    linarith
  have least : 0 ≤ y := le_trans (by positivity) many
  have low := Nat.floor_le least
  have high := Nat.lt_floor_add_one y
  by_cases first : y - ⌊y⌋₊ ≤ 1 / 2
  · refine readingBack?_isSome (near (m := ⌊y⌋₊) ?_) rfl (.inl floor.symm)
    rw [abs_of_nonpos (by linarith)]
    linarith
  · refine readingBack?_isSome (near (m := ⌊y⌋₊ + 1) ?_) rfl (.inr (by rw [floor]))
    push_cast
    rw [abs_of_pos (by linarith)]
    linarith

theorem trim_value (fuel : Nat) (d : Decimal) : (trim fuel d).value = d.value := by
  induction fuel generalizing d with
  | zero => rfl
  | succ fuel ih =>
      rw [trim]
      split
      · rename_i zeros
        simp only [Bool.and_eq_true, decide_eq_true_eq] at zeros
        have whole : (d.digits : ℚ) = (d.digits / 10 : Nat) * 10 := by
          have := Nat.div_add_mod d.digits 10
          exact_mod_cast (show d.digits = d.digits / 10 * 10 by omega)
        rw [ih, value, value, whole, zpow_add_one₀ (by norm_num)]
        ring
      · rfl

theorem trim_digits {fuel : Nat} {d : Decimal} (nonzero : d.digits ≠ 0)
    (few : d.digits ≤ 10 ^ fuel) : (trim fuel d).digits % 10 ≠ 0 := by
  induction fuel generalizing d with
  | zero =>
      rw [trim]
      omega
  | succ fuel ih =>
      rw [trim]
      split
      · rename_i zeros
        simp only [Bool.and_eq_true, decide_eq_true_eq] at zeros
        apply ih
        · dsimp only
          omega
        · dsimp only
          omega
      · rename_i zeros
        simp only [Bool.and_eq_true, decide_eq_true_eq] at zeros
        omega

theorem digits_of_readingBack? {rank num den count : Nat} (nonzero : num ≠ 0) (positive : 0 < den)
    {d : Decimal} (found : readingBack? rank num den count = some d) : d.digits ≤ 10 ^ count := by
  obtain ⟨-, high⟩ := grid_bounds nonzero positive count
  obtain ⟨-, floor⟩ := scale_grid num den count
  have around := (readingBack?_eq_some found).2
  rw [floor] at around
  have less : ⌊(num : ℚ) / den / 10 ^ (size num den - count)⌋₊ < 10 ^ count := by
    rw [Nat.floor_lt' (by positivity)]
    exact_mod_cast high
  omega

theorem exists_shortest {rank : Fin Double.limit} (nonzero : rank.val ≠ 0) :
    ∃ d : Decimal, (d.toDouble false).place = some (rank.val : Int) ∧ d.digits ≤ 10 ^ 17 ∧
      shortest rank = trim 17 d := by
  have ratio := Double.scale_ratio (Double.significand rank) 1 (show 1 < 2 by decide)
    (Double.exponent rank)
  rw [Nat.cast_one, div_one, Nat.cast_ofNat, ← Double.magnitude] at ratio
  have positive : 0 < (Double.scale 2 (Double.significand rank) 1 (Double.exponent rank)).2 :=
    Double.scale_pos _ Nat.one_pos (by decide) _
  unfold shortest
  generalize Double.scale 2 (Double.significand rank) 1 (Double.exponent rank) = parts at *
  obtain ⟨num, den⟩ := parts
  dsimp only at ratio positive ⊢
  have num_ne : num ≠ 0 := by
    rintro rfl
    rw [Nat.cast_zero, zero_div] at ratio
    exact (Double.magnitude_pos nonzero).ne ratio
  obtain ⟨d, found⟩ : ∃ d,
      (List.range 17).findSome? (fun count => readingBack? rank num den (count + 1)) = some d :=
    Option.isSome_iff_exists.mp (List.findSome?_isSome_iff.mpr
      ⟨16, List.mem_range.mpr (by decide), readingBack?_seventeen nonzero positive ratio⟩)
  obtain ⟨count, member, reads⟩ := List.exists_of_findSome?_eq_some found
  have few : count < 17 := List.mem_range.mp member
  refine ⟨d, (readingBack?_eq_some reads).1, ?_, by rw [found]⟩
  exact le_trans (digits_of_readingBack? num_ne positive reads)
    (Nat.pow_le_pow_right (by decide) few)

/-- The shortest decimal has the number as the nearest double, and no zeros at its end. -/
theorem shortest_spec {rank : Fin Double.limit} (nonzero : rank.val ≠ 0) :
    Double.rankOf (shortest rank).value = rank ∧ (shortest rank).digits % 10 ≠ 0 := by
  obtain ⟨d, reads, few, same⟩ := exists_shortest nonzero
  obtain ⟨digits, nearest⟩ := Double.rankOf_of_place nonzero reads
  rw [same, trim_value]
  exact ⟨nearest, trim_digits digits few⟩

end Decimal

end Flowfile
