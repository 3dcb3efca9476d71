import Mathlib.Algebra.GroupWithZero.Nat
import Mathlib.Data.Int.ConditionallyCompleteOrder
import Mathlib.Order.ConditionallyCompleteLattice.Basic
import Flowfile.Text.Units

/-! Offsets in code units against offsets in characters.

The two conversions are adjoint, which fixes where every offset lands: in front of the text, inside
it, between the two units of one character, and past its end. -/

namespace Flowfile.Text

theorem units_bounds (c : Char) : 1 ≤ units c ∧ units c ≤ 2 := by
  rw [units]
  split <;> decide

theorem astral_iff (c : Char) : 0xFFFF < c.toNat ↔ units c = 2 := by
  rw [units]
  split
  · rename_i astral
    exact ⟨fun _ => rfl, fun _ => astral⟩
  · rename_i basic
    exact ⟨fun astral => absurd astral basic, fun two => by cases two⟩

def width (text : Text) : Nat := (text.map units).sum

@[simp]
theorem width_nil : width [] = 0 := by
  rfl

@[simp]
theorem width_cons (c : Char) (rest : Text) : width (c :: rest) = units c + width rest := by
  rfl

theorem unitsOfIndex_nonpos (text : Text) {index : Int} (front : index ≤ 0) :
    unitsOfIndex text index = index := by
  cases text with
  | nil => rfl
  | cons c rest => rw [unitsOfIndex, if_pos front]

theorem unitsOfIndex_succ (c : Char) (rest : Text) {index : Int} (inside : 0 < index) :
    unitsOfIndex (c :: rest) index = unitsOfIndex rest (index - 1) + units c := by
  rw [unitsOfIndex, if_neg (by omega)]

/-- The offset in code units is the width of what stands before, and past the end one unit for each
character more. -/
theorem unitsOfIndex_eq_width (text : Text) {index : Int} (inside : 0 ≤ index) :
    unitsOfIndex text index =
      width (text.take index.toNat) + (index - min index text.length) := by
  induction text generalizing index with
  | nil =>
      rw [unitsOfIndex, List.take_nil, width_nil, List.length_nil]
      omega
  | cons c rest ih =>
      rcases Int.lt_or_eq_of_le inside with positive | rfl
      · obtain ⟨n, rfl⟩ : ∃ n : Nat, index = n + 1 := ⟨index.toNat - 1, by omega⟩
        have count : ((n : Int) + 1).toNat = n + 1 := by omega
        rw [unitsOfIndex_succ c rest positive, ih (by omega), count, List.take_succ_cons, width_cons,
          List.length_cons]
        have less : ((n : Int) + 1 - 1).toNat = n := by omega
        rw [less]
        push_cast
        omega
      · rw [unitsOfIndex_nonpos _ (Int.le_refl 0)]
        rw [Int.toNat_zero, List.take_zero, width_nil]
        omega

theorem unitsOfIndex_nonneg (text : Text) {index : Int} (inside : 0 ≤ index) :
    0 ≤ unitsOfIndex text index := by
  rw [unitsOfIndex_eq_width text inside]
  omega

theorem unitsOfIndex_le_iff (text : Text) (index offset : Int) :
    unitsOfIndex text index ≤ offset ↔ index ≤ indexOfUnits text offset := by
  induction text generalizing index offset with
  | nil => exact Iff.rfl
  | cons c rest ih =>
      obtain ⟨least, -⟩ := units_bounds c
      -- An offset that is not negative leads to an index that is not.
      have later : 0 ≤ offset - units c → 0 ≤ indexOfUnits rest (offset - units c) := by
        intro inside
        rw [← ih, unitsOfIndex_nonpos rest (Int.le_refl 0)]
        exact inside
      rw [indexOfUnits]
      rcases lt_or_ge 0 index with inside | front
      · have before : 0 ≤ unitsOfIndex rest (index - 1) := unitsOfIndex_nonneg rest (by omega)
        have step := ih (index - 1) (offset - units c)
        rw [unitsOfIndex_succ c rest inside]
        split <;> omega
      · rw [unitsOfIndex_nonpos _ front]
        split <;> omega

theorem indexOfUnits_unitsOfIndex (text : Text) (index : Int) :
    indexOfUnits text (unitsOfIndex text index) = index := by
  refine Int.le_antisymm ?_ ((unitsOfIndex_le_iff text index _).mp (Int.le_refl _))
  induction text generalizing index with
  | nil => exact Int.le_refl index
  | cons c rest ih =>
      obtain ⟨least, -⟩ := units_bounds c
      rw [indexOfUnits]
      rcases lt_or_ge 0 index with inside | front
      · have before : 0 ≤ unitsOfIndex rest (index - 1) := unitsOfIndex_nonneg rest (by omega)
        have step := ih (index - 1)
        rw [unitsOfIndex_succ c rest inside, Int.add_sub_cancel]
        split <;> omega
      · rw [unitsOfIndex_nonpos _ front, if_pos (by omega)]
        omega

/-- The offset falls between the two units of a character. -/
def SplitsPair (text : Text) (offset : Int) : Prop :=
  ∃ before c after, text = before ++ c :: after ∧ 0xFFFF < c.toNat ∧ offset = width before + 1

theorem splitsPair_nil (offset : Int) : ¬SplitsPair [] offset := by
  rintro ⟨before, c, after, whole, -⟩
  simp at whole

theorem splitsPair_cons (c : Char) (rest : Text) (offset : Int) :
    SplitsPair (c :: rest) offset ↔
      (units c = 2 ∧ offset = 1) ∨ SplitsPair rest (offset - units c) := by
  constructor
  · rintro ⟨before, d, after, whole, astral, place⟩
    cases before with
    | nil =>
        cases whole
        exact .inl ⟨(astral_iff _).mp astral, by simpa using place⟩
    | cons first before =>
        cases whole
        refine .inr ⟨before, d, after, rfl, astral, ?_⟩
        rw [width_cons] at place
        push_cast at place
        omega
  · rintro (⟨two, rfl⟩ | ⟨before, d, after, rfl, astral, place⟩)
    · exact ⟨[], c, rest, rfl, (astral_iff c).mpr two, rfl⟩
    · refine ⟨c :: before, d, after, rfl, astral, ?_⟩
      rw [width_cons]
      push_cast
      omega

theorem splitsPair_pos {text : Text} {offset : Int} (splits : SplitsPair text offset) :
    1 ≤ offset := by
  obtain ⟨before, c, after, -, -, rfl⟩ := splits
  omega

theorem unitsOfIndex_indexOfUnits (text : Text) (offset : Int) :
    (SplitsPair text offset → unitsOfIndex text (indexOfUnits text offset) = offset - 1) ∧
    (¬SplitsPair text offset → unitsOfIndex text (indexOfUnits text offset) = offset) := by
  induction text generalizing offset with
  | nil => exact ⟨fun splits => absurd splits (splitsPair_nil offset), fun _ => rfl⟩
  | cons c rest ih =>
      obtain ⟨least, most⟩ := units_bounds c
      rw [splitsPair_cons, indexOfUnits]
      by_cases short : offset < units c
      · have never : ¬SplitsPair rest (offset - units c) := by
          intro splits
          have positive := splitsPair_pos splits
          omega
        rw [if_pos short, unitsOfIndex_nonpos _ (Int.min_le_right offset 0), or_iff_left never]
        constructor
        · rintro ⟨-, rfl⟩
          rfl
        · intro whole
          omega
      · have inside : 0 ≤ indexOfUnits rest (offset - units c) := by
          rw [← unitsOfIndex_le_iff, unitsOfIndex_nonpos rest (Int.le_refl 0)]
          omega
        have other : ¬(units c = 2 ∧ offset = 1) := by omega
        obtain ⟨between, apart⟩ := ih (offset - units c)
        rw [if_neg short, unitsOfIndex_succ c rest (by omega), Int.add_sub_cancel,
          or_iff_right other]
        constructor
        · intro splits
          rw [between splits]
          omega
        · intro whole
          rw [apart whole]
          omega

/-- Conversion to code units is the lower adjoint of conversion to characters. So both keep the
order, an offset in characters comes back from code units, and one in code units comes back unless
it falls between the two units of a character, where it is moved in front of them. -/
theorem offsets_galois (text : Text) :
    (∀ index offset, unitsOfIndex text index ≤ offset ↔ index ≤ indexOfUnits text offset) ∧
    Monotone (unitsOfIndex text) ∧ Monotone (indexOfUnits text) ∧
    (∀ index, indexOfUnits text (unitsOfIndex text index) = index) ∧
    (∀ offset, SplitsPair text offset →
      unitsOfIndex text (indexOfUnits text offset) = offset - 1) ∧
    (∀ offset, ¬SplitsPair text offset →
      unitsOfIndex text (indexOfUnits text offset) = offset) := by
  have adjoint : GaloisConnection (unitsOfIndex text) (indexOfUnits text) :=
    unitsOfIndex_le_iff text
  exact ⟨adjoint, adjoint.monotone_l, adjoint.monotone_u, indexOfUnits_unitsOfIndex text,
    fun offset => (unitsOfIndex_indexOfUnits text offset).1,
    fun offset => (unitsOfIndex_indexOfUnits text offset).2⟩

/-- The middle of a character of two units, and the offset behind it. -/
theorem offsets_galois_astral :
    let text : Text := ['a', '😀', 'b']
    SplitsPair text 2 ∧ unitsOfIndex text (indexOfUnits text 2) = 1 ∧
      ¬SplitsPair text 3 ∧ unitsOfIndex text (indexOfUnits text 3) = 3 := by
  intro text
  obtain ⟨-, -, -, -, between, apart⟩ := offsets_galois text
  have splits : SplitsPair text 2 := ⟨['a'], '😀', ['b'], rfl, by decide, by decide⟩
  have whole : ¬SplitsPair text 3 := by
    simp only [text, splitsPair_cons]
    rintro (⟨-, other⟩ | ⟨-, other⟩ | ⟨basic, -⟩ | past)
    · cases other
    · revert other
      decide
    · revert basic
      decide
    · exact splitsPair_nil _ past
  exact ⟨splits, between 2 splits, whole, apart 3 whole⟩

end Flowfile.Text
