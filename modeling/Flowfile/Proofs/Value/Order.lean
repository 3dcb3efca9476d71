import Mathlib.Data.Char
import Mathlib.Data.List.Lex
import Mathlib.Data.Int.Order.Basic
import Mathlib.Order.Lattice
import Flowfile.Proofs.Number.Exact

/-! Loose equality beside the order of values.

Both go by the same key, a folded text or the place of a double, with one exception: two numbers are
equal only if their exact values are, and an integer can share its double with another number. -/

namespace Flowfile

theorem Text.before_iff (a b : Text) : before a b = true ↔ a < b := by
  fun_induction before a b with
  | case1 a => simp
  | case2 b right => simp
  | case3 left a right ih => simpa using ih
  | case4 a left b right apart => simp [List.cons_lt_cons_iff, apart]

namespace Double

section

variable {d e : Double} {x y : Int} (left : d.place = some x) (right : e.place = some y)

include left right

theorem eq_iff : d.eq e = true ↔ x = y := by
  simp [eq, related, left, right]

theorem lt_iff : d.lt e = true ↔ x < y := by
  simp [lt, related, left, right]

theorem le_iff : d.le e = true ↔ x ≤ y := by
  simp [le, related, left, right]

end

theorem eq_comm (d e : Double) : d.eq e = e.eq d := by
  cases left : d.place <;> cases right : e.place <;> simp [eq, related, left, right, Bool.beq_comm]

theorem place_eq_of_eq {d e : Double} (same : d.eq e = true) : d.place = e.place := by
  cases left : d.place <;> cases right : e.place <;> simp_all [eq, related]

end Double

namespace Number

theorem eq_comm (m n : Number) : m.eq n = n.eq m := by
  cases m <;> cases n <;> simp [eq, Double.eq_comm, Eq.comm]

theorem toDouble_eq {m n : Number} (number : m.toDouble.isNan = false) (same : m.eq n = true) :
    m.toDouble.eq n.toDouble = true := by
  obtain ⟨x, placed⟩ := Double.place_isSome number
  have share : n.toDouble.place = some x := by
    cases m with
    | int i =>
        cases n with
        | int j =>
            have equal : i = j := by simpa [eq] using same
            exact equal ▸ placed
        | float e =>
            have whole : e.toInt? = some i := by simpa [eq] using same
            exact (Double.place_ofInt whole).symm.trans placed
    | float d =>
        cases n with
        | int j =>
            have whole : d.toInt? = some j := by simpa [eq] using same
            exact (Double.place_ofInt whole).trans placed
        | float e => exact (Double.place_eq_of_eq same).symm.trans placed
  exact (Double.eq_iff placed share).mpr rfl

theorem eq_of_small {i : Int} {n : Number} (small : i.natAbs ≤ 2 ^ 53)
    (integers : ∀ j, n = .int j → j.natAbs ≤ 2 ^ 53)
    (same : (Double.ofInt i).eq n.toDouble = true) : (Number.int i).eq n = true := by
  have whole : n.toDouble.toInt? = some i :=
    (Double.toInt?_congr (Double.place_eq_of_eq same)).symm.trans (Double.toInt?_ofInt small)
  cases n with
  | int j =>
      have own : (Double.ofInt j).toInt? = some j := Double.toInt?_ofInt (integers j rfl)
      have equal : i = j := Option.some.inj (whole.symm.trans own)
      simp [eq, equal]
  | float e =>
      have exact : e.toInt? = some i := whole
      simp [eq, exact]

end Number

theorem Origin.same_comm (left right : Origin) : left.same right = right.same left := by
  cases left <;> cases right <;> simp [Origin.same, Eq.comm]

namespace Value

theorem looseEq_comm (a b : Value) : looseEq a b = looseEq b a := by
  cases a <;> cases b <;>
    simp [looseEq, isContainer, Double.eq_comm, Number.eq_comm, Origin.same_comm, Eq.comm]

namespace Ordering

def swap : Ordering → Ordering
  | .lt => .gt
  | .le => .ge
  | .gt => .lt
  | .ge => .le

def Holds {Key : Type} [LinearOrder Key] (rel : Ordering) (x y : Key) : Prop :=
  match rel with
  | .lt => x < y
  | .le => x ≤ y
  | .gt => y < x
  | .ge => y ≤ x

theorem ofTexts_iff (rel : Ordering) (a b : Text) : rel.ofTexts a b = true ↔ rel.Holds a b := by
  cases rel with
  | lt => exact Text.before_iff a b
  | gt => exact Text.before_iff b a
  | le =>
      rw [ofTexts, Bool.not_eq_true', ← Bool.not_eq_true, Text.before_iff]
      exact not_lt
  | ge =>
      rw [ofTexts, Bool.not_eq_true', ← Bool.not_eq_true, Text.before_iff]
      exact not_lt

theorem ofDoubles_iff (rel : Ordering) {d e : Double} {x y : Int} (left : d.place = some x)
    (right : e.place = some y) : rel.ofDoubles d e = true ↔ rel.Holds x y := by
  cases rel with
  | lt => exact Double.lt_iff left right
  | le => exact Double.le_iff left right
  | gt => exact Double.lt_iff right left
  | ge => exact Double.le_iff right left

theorem ofTexts_swap (rel : Ordering) (a b : Text) : rel.swap.ofTexts b a = rel.ofTexts a b := by
  cases rel <;> rfl

theorem ofDoubles_swap (rel : Ordering) (d e : Double) :
    rel.swap.ofDoubles e d = rel.ofDoubles d e := by
  cases rel <;> rfl

end Ordering

theorem compare_swap (rel : Ordering) (a b : Value) : compare rel.swap b a = compare rel a b := by
  cases a <;> cases b <;>
    simp [compare, isContainer, isUndefined, Ordering.ofTexts_swap, Ordering.ofDoubles_swap]

/-- Both are texts, or both convert to a number, which nothing undefined and no list or mapping
does. -/
def Comparable (a b : Value) : Prop :=
  (∃ s t, a = .str s ∧ b = .str t) ∨ (a.toNumber.isNan = false ∧ b.toNumber.isNan = false)

/-- Two numbers that are not equal, though they have one double. -/
def Blurred (a b : Value) : Prop :=
  ∃ m n, a = .number m ∧ b = .number n ∧ m.eq n = false ∧ m.toDouble.eq n.toDouble = true

section

variable {a b : Value}

theorem of_number {v : Value} (number : v.toNumber.isNan = false) :
    v = .null ∨ (∃ x, v = .bool x) ∨ (∃ n, v = .number n) ∨ ∃ s, v = .str s := by
  cases v with
  | undefined | list _ _ | map _ _ => cases number
  | null => exact .inl rfl
  | bool x => exact .inr (.inl ⟨x, rfl⟩)
  | number n => exact .inr (.inr (.inl ⟨n, rfl⟩))
  | str s => exact .inr (.inr (.inr ⟨s, rfl⟩))

theorem looseEq_bools : ∀ x y : Bool,
    looseEq (.bool x) (.bool y) = (Value.bool x).toNumber.eq (Value.bool y).toNumber := by
  decide

section

variable (left : a.toNumber.isNan = false) (right : b.toNumber.isNan = false)
  (apart : ¬∃ s t, a = .str s ∧ b = .str t)

include left right apart

theorem compare_numbers (rel : Ordering) :
    compare rel a b = rel.ofDoubles a.toNumber b.toNumber := by
  obtain rfl | ⟨_, rfl⟩ | ⟨_, rfl⟩ | ⟨_, rfl⟩ := of_number left <;>
    obtain rfl | ⟨_, rfl⟩ | ⟨_, rfl⟩ | ⟨_, rfl⟩ := of_number right <;>
      first
      | rfl
      | exact absurd ⟨_, _, rfl, rfl⟩ apart

theorem looseEq_numbers :
    looseEq a b = true ↔ a.toNumber.eq b.toNumber = true ∧ ¬Blurred a b := by
  by_cases numbers : ∃ m n, a = .number m ∧ b = .number n
  · obtain ⟨m, n, rfl, rfl⟩ := numbers
    have blurred : Blurred (.number m) (.number n) ↔
        m.eq n = false ∧ m.toDouble.eq n.toDouble = true := by
      simp [Blurred]
    have doubles : m.eq n = true → m.toDouble.eq n.toDouble = true := Number.toDouble_eq left
    change m.eq n = true ↔ m.toDouble.eq n.toDouble = true ∧ _
    rw [blurred]
    cases exact : m.eq n <;> simp_all
  · have clear : ¬Blurred a b := fun ⟨m, n, first, second, _⟩ => numbers ⟨m, n, first, second⟩
    rw [and_iff_left clear, ← Bool.eq_iff_iff]
    obtain rfl | ⟨_, rfl⟩ | ⟨_, rfl⟩ | ⟨_, rfl⟩ := of_number left <;>
      obtain rfl | ⟨_, rfl⟩ | ⟨_, rfl⟩ | ⟨_, rfl⟩ := of_number right <;>
        first
        | rfl
        | exact looseEq_bools _ _
        | exact absurd ⟨_, _, rfl, rfl⟩ apart
        | exact absurd ⟨_, _, rfl, rfl⟩ numbers

end

theorem Blurred.large (blurred : Blurred a b) :
    ∃ i : Int, (a = .int i ∨ b = .int i) ∧ 2 ^ 53 < i.natAbs := by
  obtain ⟨m, n, rfl, rfl, differ, same⟩ := blurred
  by_contra none
  push Not at none
  have left (i : Int) (first : m = .int i) : i.natAbs ≤ 2 ^ 53 :=
    none i (.inl (congrArg Value.number first))
  have right (i : Int) (second : n = .int i) : i.natAbs ≤ 2 ^ 53 :=
    none i (.inr (congrArg Value.number second))
  have equal : m.eq n = true := by
    cases m with
    | int i => exact Number.eq_of_small (left i rfl) right same
    | float d =>
        cases n with
        | int j =>
            rw [Double.eq_comm] at same
            rw [Number.eq_comm]
            exact Number.eq_of_small (right j rfl) left same
        | float e => exact same
  rw [differ] at equal
  cases equal

section

variable {Key : Type} [LinearOrder Key] {x y : Key}
  (ordered : ∀ rel, compare rel a b = true ↔ rel.Holds x y)
  (equal : looseEq a b = true ↔ x = y ∧ ¬Blurred a b) (blurred : Blurred a b → x = y)

include ordered equal blurred

theorem trichotomy_of_keys :
    [compare .lt a b, looseEq a b, compare .gt a b].count true = 1 ↔ ¬Blurred a b := by
  have less : compare .lt a b = true ↔ x < y := ordered .lt
  have greater : compare .gt a b = true ↔ y < x := ordered .gt
  have apart (differ : x ≠ y) : looseEq a b = false ∧ ¬Blurred a b :=
    ⟨by simp [← Bool.not_eq_true, equal, differ], fun found => differ (blurred found)⟩
  rcases lt_trichotomy x y with below | same | above
  · have other : compare .gt a b = false := by
      simp [← Bool.not_eq_true, greater, below.not_gt]
    simp [less.mpr below, other, apart (ne_of_lt below)]
  · have neither : compare .lt a b = false ∧ compare .gt a b = false := by
      simp [← Bool.not_eq_true, less, greater, same]
    rw [and_iff_right same] at equal
    cases found : looseEq a b <;> simp [neither, ← equal, found]
  · have other : compare .lt a b = false := by
      simp [← Bool.not_eq_true, less, above.not_gt]
    simp [greater.mpr above, other, apart (ne_of_gt above)]

theorem antisymmetry_of_keys :
    (compare .le a b && compare .ge a b) = looseEq a b ↔ ¬Blurred a b := by
  have both : (compare .le a b && compare .ge a b) = true ↔ x = y := by
    rw [Bool.and_eq_true, ordered, ordered]
    exact le_antisymm_iff.symm
  rw [Bool.eq_iff_iff, both, equal]
  tauto

end

theorem Comparable.keys (comparable : Comparable a b) :
    ∃ (Key : Type) (_ : LinearOrder Key) (x y : Key),
      (∀ rel, compare rel a b = true ↔ rel.Holds x y) ∧
      (looseEq a b = true ↔ x = y ∧ ¬Blurred a b) ∧ (Blurred a b → x = y) := by
  by_cases texts : ∃ s t, a = .str s ∧ b = .str t
  · obtain ⟨s, t, rfl, rfl⟩ := texts
    have clear : ¬Blurred (.str s) (.str t) := fun ⟨_, _, found, _⟩ => nomatch found
    refine ⟨Text, inferInstance, s.casefold, t.casefold, fun rel => ?_, ?_, fun found => ?_⟩
    · exact Ordering.ofTexts_iff rel _ _
    · simp [looseEq, clear]
    · exact absurd found clear
  · obtain ⟨left, right⟩ := comparable.resolve_left texts
    obtain ⟨x, first⟩ := Double.place_isSome left
    obtain ⟨y, second⟩ := Double.place_isSome right
    refine ⟨Int, inferInstance, x, y, fun rel => ?_, ?_, ?_⟩
    · rw [compare_numbers left right texts, Ordering.ofDoubles_iff rel first second]
    · rw [looseEq_numbers left right texts, Double.eq_iff first second]
    · rintro ⟨m, n, rfl, rfl, -, same⟩
      exact (Double.eq_iff first second).mp same

/-- Loose equality and the order fit together for all comparable values but the blurred ones, for
which neither gives a decision. -/
theorem compare_agrees_iff (comparable : Comparable a b) :
    ([compare .lt a b, looseEq a b, compare .gt a b].count true = 1 ↔ ¬Blurred a b) ∧
    ((compare .le a b && compare .ge a b) = looseEq a b ↔ ¬Blurred a b) ∧
    (∀ rel : Ordering, compare rel.swap b a = compare rel a b) ∧ looseEq b a = looseEq a b ∧
    (Blurred a b → ∃ i : Int, (a = .int i ∨ b = .int i) ∧ 2 ^ 53 < i.natAbs) := by
  obtain ⟨Key, _, x, y, ordered, equal, blurred⟩ := comparable.keys
  exact ⟨trichotomy_of_keys ordered equal blurred, antisymmetry_of_keys ordered equal blurred,
    fun rel => compare_swap rel a b, looseEq_comm b a, Blurred.large⟩

/-- A hexadecimal text beside an integer. -/
theorem compare_agrees_iff_hexadecimal :
    let a := Value.text " 0x10"
    let b := Value.int 16
    Comparable a b ∧ [compare .lt a b, looseEq a b, compare .gt a b].count true = 1 ∧
      (compare .le a b && compare .ge a b) = looseEq a b := by
  intro a b
  have comparable : Comparable a b := .inr ⟨by decide +kernel, by decide +kernel⟩
  have clear : ¬Blurred a b := fun ⟨_, _, found, _⟩ => nomatch found
  obtain ⟨one, both, -⟩ := compare_agrees_iff comparable
  exact ⟨comparable, one.mpr clear, both.mpr clear⟩

/-- The first two integers with one double. -/
theorem compare_blurred :
    let a := Value.int (2 ^ 53)
    let b := Value.int (2 ^ 53 + 1)
    Comparable a b ∧ compare .lt a b = false ∧ looseEq a b = false ∧ compare .gt a b = false ∧
      compare .le a b = true ∧ compare .ge a b = true := by
  intro a b
  exact ⟨.inr ⟨by decide +kernel, by decide +kernel⟩, by decide +kernel⟩

end

end Value

end Flowfile
