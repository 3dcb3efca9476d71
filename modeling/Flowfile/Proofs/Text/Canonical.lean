import Flowfile.Proofs.Text.Decimal
import Mathlib.Data.List.Basic
import Mathlib.Data.List.Induction
import Mathlib.Tactic.IntervalCases

/-! Numbers without superfluous digits. Those that are written out and those that have an exponent
are decimal numbers, and no text is both. -/

namespace Flowfile

namespace Text

/-- Digits without a zero in front. -/
def Leads (digits : Text) : Prop := digits.isDigits = true ∧ digits.head? ≠ some '0'

/-- Digits without a zero at the end. -/
def Trails (digits : Text) : Prop := digits.isDigits = true ∧ digits.getLast? ≠ some '0'

section

variable {front back : Text}

theorem isDigits_append_left (digits : (front ++ back).isDigits = true) (nonempty : front ≠ []) :
    front.isDigits = true :=
  (isDigits_iff _).mpr ⟨nonempty, fun c member =>
    ((isDigits_iff _).mp digits).2 c (List.mem_append_left _ member)⟩

theorem isDigits_append_right (digits : (front ++ back).isDigits = true) (nonempty : back ≠ []) :
    back.isDigits = true :=
  (isDigits_iff _).mpr ⟨nonempty, fun c member =>
    ((isDigits_iff _).mp digits).2 c (List.mem_append_right _ member)⟩

theorem Leads.of_append (front : Text) (leads : Leads (front ++ back)) (nonempty : front ≠ []) :
    Leads front := by
  refine ⟨isDigits_append_left leads.1 nonempty, ?_⟩
  rw [← List.head?_append_of_ne_nil _ nonempty]
  exact leads.2

theorem Trails.of_append (front : Text) (trails : Trails (front ++ back)) (nonempty : back ≠ []) :
    Trails back := by
  refine ⟨isDigits_append_right trails.1 nonempty, ?_⟩
  rw [← List.getLast?_append_of_ne_nil _ nonempty]
  exact trails.2

theorem Leads.append (leads : Leads front) (all : ∀ c ∈ back, isAsciiDigit c = true) :
    Leads (front ++ back) := by
  obtain ⟨nonempty, digits⟩ := (isDigits_iff _).mp leads.1
  refine ⟨(isDigits_iff _).mpr ⟨by simp [nonempty], fun c member => ?_⟩, ?_⟩
  · exact (List.mem_append.mp member).elim (digits c) (all c)
  · rw [List.head?_append_of_ne_nil _ nonempty]
    exact leads.2

theorem Trails.append (trails : Trails back) (all : ∀ c ∈ front, isAsciiDigit c = true) :
    Trails (front ++ back) := by
  obtain ⟨nonempty, digits⟩ := (isDigits_iff _).mp trails.1
  refine ⟨(isDigits_iff _).mpr ⟨by simp [nonempty], fun c member => ?_⟩, ?_⟩
  · exact (List.mem_append.mp member).elim (all c) (digits c)
  · rw [List.getLast?_append_of_ne_nil _ nonempty]
    exact trails.2

end

theorem leads_ofNat {n : Nat} (nonzero : n ≠ 0) : Leads (ofNat n) := by
  refine ⟨isDigits_ofNat n, fun zero => ?_⟩
  obtain ⟨rest, shape⟩ := List.head?_eq_some_iff.mp zero
  exact nonzero (toDigits_leading (by decide) (by decide) shape)

theorem trails_ofNat {n : Nat} (nonzero : n % 10 ≠ 0) : Trails (ofNat n) := by
  refine ⟨isDigits_ofNat n, fun zero => ?_⟩
  have last : (ofNat n).getLast? = some (Nat.digitChar (n % 10)) := by
    rw [ofNat, Nat.toDigits_eq_if (by decide)]
    split
    · rename_i small
      rw [Nat.mod_eq_of_lt small]
      rfl
    · simp
  rw [last, Option.some.injEq] at zero
  have value := digitValue_digitChar (show n % 10 < 16 by omega)
  rw [zero] at value
  exact nonzero value.symm

theorem digitChar_digitValue {c : Char} (digit : isAsciiDigit c = true) :
    digitValue c < 10 ∧ Nat.digitChar (digitValue c) = c := by
  rw [isAsciiDigit, Bool.and_eq_true, decide_eq_true_eq, decide_eq_true_eq] at digit
  obtain ⟨low, high⟩ := toNat_bounds digit.1 digit.2
  have least : 48 ≤ c.toNat := low
  have greatest : c.toNat ≤ 57 := high
  rw [← Char.ofNat_toNat c]
  generalize c.toNat = code at least greatest
  interval_cases code <;> decide

theorem readDigits_concat (digits : Text) (c : Char) :
    readDigits 10 (digits ++ [c]) = 10 * readDigits 10 digits + digitValue c := by
  rw [readDigits_eq, readDigits_eq, List.foldl_append, List.foldl_cons, List.foldl_nil,
    Nat.mul_comm]

theorem readDigits_lt {digits : Text} (all : ∀ c ∈ digits, isAsciiDigit c = true) :
    readDigits 10 digits < 10 ^ digits.length := by
  induction digits using List.reverseRecOn with
  | nil => decide
  | append_singleton digits c ih =>
      obtain ⟨front, last⟩ := List.forall_mem_append.mp all
      have smaller := ih front
      have value := (digitChar_digitValue (last c List.mem_cons_self)).1
      rw [readDigits_concat, List.length_append, List.length_singleton, Nat.pow_succ]
      omega

theorem Leads.ofNat_readDigits {digits : Text} (leads : Leads digits) :
    ofNat (readDigits 10 digits) = digits := by
  induction digits using List.reverseRecOn with
  | nil => exact absurd leads.1 (by decide)
  | append_singleton digits c ih =>
      have digit := ((isDigits_iff _).mp leads.1).2 c (by simp)
      obtain ⟨small, written⟩ := digitChar_digitValue digit
      have single : Nat.toDigits 10 (digitValue c) = [c] := by
        rw [Nat.toDigits_of_lt_base small, written]
      rw [readDigits_concat]
      by_cases only : digits = []
      · have nothing : readDigits 10 [] = 0 := readDigits_eq 10 []
        rw [only, nothing, Nat.mul_zero, Nat.zero_add]
        exact single
      · -- What stands in front is no zero, so that the last digit is written behind it.
        have front := leads.of_append digits only
        have written := ih front
        have positive : 0 < readDigits 10 digits := by
          apply Nat.pos_of_ne_zero
          intro zero
          rw [zero] at written
          exact front.2 (by rw [← written]; rfl)
        rw [ofNat, ← Nat.toDigits_append_toDigits (by decide) positive small, single]
        exact congrArg (· ++ [c]) written

/-- A number written out, without a digit that could be left out. -/
inductive Positional : Text → Prop
  | whole {digits : Text} (leads : Leads digits) : Positional digits
  | fraction {whole fraction : Text} (leads : whole = ['0'] ∨ Leads whole)
      (trails : Trails fraction) : Positional (whole ++ '.' :: fraction)

inductive Exponential : Text → Prop
  | single {first sign : Char} {power : Text} (leads : Leads [first])
      (signed : sign = '+' ∨ sign = '-') (least : Leads power) :
      Exponential (first :: 'e' :: sign :: power)
  | several {first sign : Char} {fraction power : Text} (leads : Leads [first])
      (trails : Trails fraction) (signed : sign = '+' ∨ sign = '-') (least : Leads power) :
      Exponential (first :: '.' :: (fraction ++ 'e' :: sign :: power))

theorem Leads.all {digits : Text} (leads : Leads digits) : ∀ c ∈ digits, isAsciiDigit c = true :=
  ((isDigits_iff _).mp leads.1).2

theorem Trails.all {digits : Text} (trails : Trails digits) :
    ∀ c ∈ digits, isAsciiDigit c = true :=
  ((isDigits_iff _).mp trails.1).2

theorem Positional.not_mem {text : Text} (form : Positional text) : 'e' ∉ text := by
  intro member
  cases form with
  | whole leads => cases leads.all _ member
  | @fraction whole fraction leads trails =>
      rcases List.mem_append.mp member with front | back
      · rcases leads with rfl | leads
        · exact absurd front (by decide)
        · cases leads.all _ front
      · rcases List.mem_cons.mp back with point | back
        · cases point
        · cases trails.all _ back

theorem Exponential.mem {text : Text} (form : Exponential text) : 'e' ∈ text := by
  cases form <;> simp

theorem Positional.isDecimal {text : Text} (form : Positional text) : IsDecimal text := by
  cases form with
  | whole leads => exact isDecimal_of_isDigits leads.1
  | @fraction whole fraction leads trails =>
      have number : whole ≠ [] ∧ ∀ c ∈ whole, isAsciiDigit c = true := by
        rcases leads with rfl | leads
        · exact (isDigits_iff _).mp rfl
        · exact (isDigits_iff _).mp leads.1
      have built : IsDecimal (whole ++ ('.' :: fraction ++ [])) :=
        .intro number.2 (.some trails.all) (.inl number.1) .none
      rwa [List.append_nil] at built

theorem Exponential.isDecimal {text : Text} (form : Exponential text) : IsDecimal text := by
  have scaled {sign : Char} {power : Text} (signed : sign = '+' ∨ sign = '-')
      (least : Leads power) : IsExponent ('e' :: ([sign] ++ power)) := by
    refine .some (.inl rfl) ?_ least.1
    rcases signed with rfl | rfl
    · exact .inr (.inr rfl)
    · exact .inr (.inl rfl)
  cases form with
  | @single first sign power leads signed least =>
      have built : IsDecimal ([first] ++ ([] ++ 'e' :: ([sign] ++ power))) :=
        .intro leads.all .none (.inl (by simp)) (scaled signed least)
      exact built
  | @several first sign fraction power leads trails signed least =>
      have built : IsDecimal ([first] ++ ('.' :: fraction ++ 'e' :: ([sign] ++ power))) :=
        .intro leads.all (.some trails.all) (.inl (by simp)) (scaled signed least)
      exact built

end Text

end Flowfile
