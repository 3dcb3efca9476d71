import Mathlib.Algebra.Group.Int.Defs
import Mathlib.Algebra.Group.Nat.Defs
import Flowfile.Value.Coercion

/-! The integers that are too large: for a double, for a decimal key, and for being written as they
are. -/

namespace Flowfile

namespace Double

/-- Half a unit of the last place of the greatest finite double. -/
def halfUnit : Nat := 2 ^ 970

/-- The least magnitude of an integer that rounds to infinity: `2 ^ 1024` less the half unit. -/
def overflow : Nat := (2 ^ 54 - 1) * halfUnit

theorem two_pow_halfUnit (power : Nat) : 2 ^ (power + 970) = 2 ^ power * halfUnit := by
  rw [halfUnit]
  generalize 970 = unit
  exact Nat.pow_add 2 power unit

theorem two_pow_le_halfUnit (bits power : Nat) (bound : bits ≤ power + 970) :
    2 ^ bits ≤ 2 ^ power * halfUnit := by
  rw [← two_pow_halfUnit]
  exact Nat.pow_le_pow_right Nat.two_pos bound

theorem halfUnit_le_two_pow (bits power : Nat) (bound : power + 970 ≤ bits) :
    2 ^ power * halfUnit ≤ 2 ^ bits := by
  rw [← two_pow_halfUnit]
  exact Nat.pow_le_pow_right Nat.two_pos bound

theorem halfUnit_pos : 0 < halfUnit := by
  rw [halfUnit]
  generalize 970 = power
  exact Nat.two_pow_pos power

theorem overflow_pos : 0 < overflow := by
  exact Nat.mul_pos (by decide) halfUnit_pos

theorem roundDiv_one (n : Nat) : roundDiv n 1 = n := by
  simp [roundDiv, Nat.mod_one]

/-- Rounding comes to an even number from half a unit before it on. -/
theorem roundDiv_lt_iff (num den bound : Nat) (positive : 0 < den) (even : bound % 2 = 0) :
    roundDiv num den < bound ↔ 2 * num + den < 2 * (bound * den) := by
  have whole : den * (num / den) + num % den = num := Nat.div_add_mod num den
  have small : num % den < den := Nat.mod_lt num positive
  have commuted : den * (num / den) = num / den * den := Nat.mul_comm _ _
  rw [roundDiv]
  generalize num / den = quotient at whole commuted ⊢
  generalize num % den = remainder at whole small ⊢
  rcases Nat.lt_trichotomy (quotient + 1) bound with below | same | above
  · have room : (quotient + 1 + 1) * den ≤ bound * den := Nat.mul_le_mul_right den below
    rw [Nat.add_mul, Nat.add_mul] at room
    refine ⟨fun _ => by omega, fun _ => ?_⟩
    split <;> omega
  · have product : (quotient + 1) * den = bound * den := by rw [same]
    rw [Nat.add_mul] at product
    have odd : quotient % 2 = 1 := by omega
    simp only [odd, decide_true, Bool.and_true, Bool.or_eq_true, decide_eq_true_eq]
    split
    · rename_i up
      refine ⟨fun _ => by omega, fun _ => by omega⟩
    · rename_i down
      refine ⟨fun _ => by omega, fun _ => by omega⟩
  · have room : bound * den ≤ quotient * den := Nat.mul_le_mul_right den (by omega)
    refine ⟨fun rounded => ?_, fun _ => by omega⟩
    split at rounded <;> omega

theorem leadingBit_one (n : Nat) (positive : n ≠ 0) : leadingBit n 1 = Nat.log2 n := by
  have low : 2 ^ Nat.log2 n ≤ n := Nat.log2_self_le positive
  have zero : Nat.log2 1 = 0 := by decide
  rw [leadingBit, zero]
  dsimp only
  cases exponent : Nat.log2 n with
  | zero => simp [scale, Nat.one_le_iff_ne_zero, positive]
  | succ exponent' =>
      have below : ¬(0 : Int) ≤ -(((exponent' + 1 : Nat) : Int) - (0 : Nat)) := by omega
      rw [scale, if_neg below]
      have back : (-(-(((exponent' + 1 : Nat) : Int) - (0 : Nat)))).toNat = exponent' + 1 := by omega
      dsimp only
      rw [back, Nat.one_mul, if_pos (by rw [← exponent]; exact low)]
      omega

/-- A whole number is ranked by its bits: exactly up to 53 of them, rounded beyond. -/
def wholeRank (n : Nat) : Nat :=
  (Nat.log2 n + 1022) * binade +
    (if Nat.log2 n ≤ 52 then n * 2 ^ (52 - Nat.log2 n) else roundDiv n (2 ^ (Nat.log2 n - 52)))

theorem ofRatio_one (negative : Bool) {n : Nat} (positive : n ≠ 0) :
    ofRatio negative n 1 =
      if inRange : wholeRank n < limit then finite negative ⟨wholeRank n, inRange⟩
      else infinite negative := by
  rw [ofRatio, if_neg positive, leadingBit_one n positive]
  unfold wholeRank
  generalize Nat.log2 n = bits
  have power : max (-1074 : Int) ((bits : Int) - 52) = (bits : Int) - 52 := by omega
  have base : ((bits : Int) - 52 + 1074).toNat = bits + 1022 := by omega
  dsimp only
  rw [power, base]
  have scaled : roundDiv (scale 2 n 1 (-((bits : Int) - 52))).1
        (scale 2 n 1 (-((bits : Int) - 52))).2 =
      if bits ≤ 52 then n * 2 ^ (52 - bits) else roundDiv n (2 ^ (bits - 52)) := by
    split
    · rename_i small
      have up : (-((bits : Int) - 52)).toNat = 52 - bits := by omega
      rw [scale, if_pos (by omega), up]
      exact roundDiv_one _
    · rename_i large
      have down : (-(-((bits : Int) - 52))).toNat = bits - 52 := by omega
      rw [scale, if_neg (by omega), down]
      dsimp only
      rw [Nat.one_mul]
      rfl
  simp only [scaled]

theorem ofRatio_isFinite (negative : Bool) (n : Nat) (positive : n ≠ 0) :
    (ofRatio negative n 1).isFinite = true ↔ wholeRank n < limit := by
  rw [ofRatio_one negative positive]
  split
  · rename_i inRange
    exact ⟨fun _ => inRange, fun _ => rfl⟩
  · rename_i outside
    refine ⟨fun finite => ?_, fun inRange => absurd inRange outside⟩
    cases finite

theorem ofInt_isFinite (i : Int) : (ofInt i).isFinite = true ↔ i.natAbs < overflow := by
  rw [ofInt]
  by_cases nothing : i.natAbs = 0
  · rw [nothing, ofRatio, if_pos rfl]
    exact ⟨fun _ => overflow_pos, fun _ => rfl⟩
  rw [ofRatio_isFinite _ _ nothing, wholeRank]
  have low : 2 ^ Nat.log2 i.natAbs ≤ i.natAbs := Nat.log2_self_le nothing
  have high : i.natAbs < 2 ^ (Nat.log2 i.natAbs + 1) := Nat.lt_log2_self
  generalize i.natAbs = n at low high ⊢
  generalize Nat.log2 n = bits at low high ⊢
  have whole : limit = 2047 * 2 ^ 52 := by decide
  have step : binade = 2 ^ 52 := by decide
  rw [whole, step, overflow]
  -- Only with 1024 bits does the rounding decide.
  rcases Nat.lt_or_ge bits 1023 with below | above
  · have inside : n < (2 ^ 54 - 1) * halfUnit := by
      have most := two_pow_le_halfUnit (bits + 1) 53 (by omega)
      omega
    refine ⟨fun _ => inside, fun _ => ?_⟩
    split
    · rename_i small
      have scaled : n * 2 ^ (52 - bits) < 2 ^ (bits + 1) * 2 ^ (52 - bits) :=
        Nat.mul_lt_mul_of_pos_right high (Nat.two_pow_pos _)
      rw [← Nat.pow_add, show bits + 1 + (52 - bits) = 53 by omega] at scaled
      omega
    · rename_i large
      have split : 2 ^ (bits + 1) = 2 ^ 53 * 2 ^ (bits - 52) := by
        rw [← Nat.pow_add]
        congr 1
        omega
      have rounded := (roundDiv_lt_iff n (2 ^ (bits - 52)) (2 ^ 53 + 2) (Nat.two_pow_pos _)
        (by decide)).mpr (by omega)
      omega
  · have large : ¬bits ≤ 52 := by omega
    have split : 2 ^ bits = 2 ^ 52 * 2 ^ (bits - 52) := by
      rw [← Nat.pow_add]
      congr 1
      omega
    rw [if_neg large]
    rcases Nat.lt_or_eq_of_le above with beyond | edge
    · have outside := halfUnit_le_two_pow bits 54 (by omega)
      have rounded := roundDiv_lt_iff n (2 ^ (bits - 52)) (2 ^ 52) (Nat.two_pow_pos _) (by decide)
      refine ⟨fun finite => ?_, fun inside => ?_⟩ <;> omega
    · subst edge
      have positive := halfUnit_pos
      have rounded := roundDiv_lt_iff n (2 ^ 1 * halfUnit) (2 ^ 53) (by omega) (by decide)
      rw [show 1023 - 52 = 1 + 970 by rfl, two_pow_halfUnit 1]
      refine ⟨fun finite => ?_, fun inside => ?_⟩ <;> omega

end Double

theorem Value.truthy_eq_error (value : Value) (error : EvalError) :
    value.truthy = .error error ↔ error = .integerTooLarge ∧
      ∃ i, value = .int i ∧ Double.overflow ≤ i.natAbs := by
  have exceeds (i : Int) :
      Value.truthy (.int i) = .error error ↔
        error = .integerTooLarge ∧ Double.overflow ≤ i.natAbs := by
    have positive := Double.overflow_pos
    rw [truthy]
    split
    · rename_i zero
      subst zero
      refine ⟨fun failed => (by cases failed), ?_⟩
      rintro ⟨-, large⟩
      exact absurd positive (Nat.not_lt.mpr large)
    · split
      · rename_i finite
        rw [Double.ofInt_isFinite] at finite
        refine ⟨fun failed => (by cases failed), ?_⟩
        rintro ⟨-, large⟩
        omega
      · rename_i outside
        rw [Double.ofInt_isFinite] at outside
        rw [Except.error.injEq, eq_comm, and_iff_left (Nat.not_lt.mp outside)]
  constructor
  · intro failed
    match value with
    | .number (.int i) =>
        obtain ⟨same, large⟩ := (exceeds i).mp failed
        exact ⟨same, i, rfl, large⟩
    | .number (.float _) | .undefined | .null | .bool _ | .str _ | .list _ _ | .map _ _ =>
        cases failed
  · rintro ⟨same, i, rfl, large⟩
    exact (exceeds i).mpr ⟨same, large⟩

theorem integerKey_eq_error (i : Int) (error : EvalError) :
    integerKey i = .error error ↔ error = .tooManyDigits ∧ 10 ^ digitLimit ≤ i.natAbs := by
  have length : (Nat.toDigits 10 i.natAbs).length ≤ digitLimit ↔ i.natAbs < 10 ^ digitLimit :=
    Nat.length_toDigits_le_iff (by decide) (by decide)
  rw [← Nat.not_lt, ← length, Nat.not_le, integerKey]
  split
  · rename_i many
    rw [Except.error.injEq, eq_comm, and_iff_left many]
  · rename_i few
    refine ⟨fun failed => (by cases failed), ?_⟩
    rintro ⟨-, many⟩
    exact absurd many few

theorem Number.clamp_digits (n : Number) (i : Int) (kept : n.clamp = .int i) :
    (Nat.toDigits 10 i.natAbs).length ≤ digitLimit := by
  have short : bitLength i ≤ 1024 := by
    rw [clamp.eq_def] at kept
    split at kept
    · split at kept
      · cases kept
      · rename_i within
        cases kept
        omega
    · cases kept
  have small : i.natAbs < 10 ^ digitLimit := by
    by_cases zero : i = 0
    · rw [zero]
      exact Nat.pow_pos (by decide)
    · rw [bitLength, if_neg zero] at short
      have bounded : i.natAbs < 2 ^ (Nat.log2 i.natAbs + 1) := Nat.lt_log2_self
      have binary := Nat.pow_le_pow_right Nat.two_pos short
      have decimal := Nat.pow_le_pow_left (show 2 ≤ 10 by decide) 1024
      have longer := Nat.pow_le_pow_right (show 0 < 10 by decide) (show 1024 ≤ digitLimit by decide)
      omega
  exact (Nat.length_toDigits_le_iff (by decide) (by decide)).mpr small

end Flowfile
