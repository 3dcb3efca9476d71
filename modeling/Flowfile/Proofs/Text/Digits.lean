import Mathlib.Data.List.TakeWhile
import Flowfile.Text.Basic

/-! Runs of digits and the numbers they are written for, in bases up to sixteen. -/

namespace Flowfile.Text

theorem toNat_bounds {c first last : Char} (low : first ≤ c) (high : c ≤ last) :
    first.toNat ≤ c.toNat ∧ c.toNat ≤ last.toNat :=
  ⟨UInt32.le_iff_toNat_le.mp low, UInt32.le_iff_toNat_le.mp high⟩

theorem ne_of_isAsciiDigit {c other : Char} (digit : isAsciiDigit c = true)
    (letter : isAsciiDigit other = false) : c ≠ other := by
  rintro rfl
  rw [digit] at letter
  cases letter

theorem isDigits_iff (text : Text) :
    text.isDigits = true ↔ text ≠ [] ∧ ∀ c ∈ text, isAsciiDigit c = true := by
  simp [isDigits]

theorem digitValue_digitChar {d : Nat} (small : d < 16) : digitValue (Nat.digitChar d) = d := by
  revert d
  decide

theorem isHexDigit_digitChar {d : Nat} (small : d < 16) :
    isHexDigit (Nat.digitChar d) = true := by
  revert d
  decide

section

variable {base : Nat} (several : 1 < base)

include several

theorem digits_induction {P : Nat → Text → Prop}
    (digit : ∀ d, d < base → P d [Nat.digitChar d])
    (more : ∀ n d, 0 < n → d < base → P n (Nat.toDigits base n) →
      P (base * n + d) (Nat.toDigits base n ++ [Nat.digitChar d])) (n : Nat) :
    P n (Nat.toDigits base n) := by
  induction n using Nat.strongRecOn with
  | ind n ih =>
      rw [Nat.toDigits_eq_if several]
      split
      · rename_i small
        exact digit n small
      · rename_i large
        have positive : 0 < n / base := Nat.div_pos (by omega) (by omega)
        have smaller : n / base < n := Nat.div_lt_self (by omega) several
        have last : n % base < base := Nat.mod_lt n (by omega)
        have whole := more (n / base) (n % base) positive last (ih (n / base) smaller)
        rwa [Nat.div_add_mod] at whole

theorem appendDigits_toDigits (hexadecimal : base ≤ 16) (n : Nat) :
    appendDigits base 0 (Nat.toDigits base n) = n := by
  refine digits_induction several (P := fun n digits => appendDigits base 0 digits = n) ?_ ?_ n
  · intro d small
    rw [appendDigits, List.foldl_cons, List.foldl_nil, digitValue_digitChar (by omega)]
    omega
  · intro n d _ small ih
    rw [appendDigits_append, ih, appendDigits, List.foldl_cons, List.foldl_nil,
      digitValue_digitChar (by omega), List.length_singleton, Nat.mul_comm]
    simp

theorem readDigits_toDigits (hexadecimal : base ≤ 16) (n : Nat) :
    readDigits base (Nat.toDigits base n) = n :=
  (readDigits_eq base _).trans (appendDigits_toDigits several hexadecimal n)

theorem isHexDigit_of_mem_toDigits (hexadecimal : base ≤ 16) {n : Nat} {c : Char}
    (member : c ∈ Nat.toDigits base n) : isHexDigit c = true := by
  have all := digits_induction several (P := fun _ digits => ∀ c ∈ digits, isHexDigit c = true)
    (fun d small c member => by
      obtain rfl := List.mem_singleton.mp member
      exact isHexDigit_digitChar (by omega))
    (fun n d _ small ih c member => by
      rcases List.mem_append.mp member with front | last
      · exact ih c front
      · obtain rfl := List.mem_singleton.mp last
        exact isHexDigit_digitChar (by omega)) n
  exact all c member

theorem toDigits_leading (hexadecimal : base ≤ 16) {n : Nat} {rest : Text}
    (leads : Nat.toDigits base n = '0' :: rest) : n = 0 := by
  refine digits_induction several (P := fun n digits => ∀ rest, digits = '0' :: rest → n = 0)
    ?_ ?_ n rest leads
  · intro d small rest leads
    have zero : Nat.digitChar d = '0' := (List.cons.inj leads).1
    have value := digitValue_digitChar (d := d) (by omega)
    rw [zero] at value
    exact value.symm
  · intro n d positive _ ih rest leads
    -- The digits in front are those of a positive number, which does not start with a zero.
    obtain ⟨first, digits, shape⟩ :=
      List.exists_cons_of_ne_nil (Nat.toDigits_ne_nil (n := n) (b := base))
    rw [shape] at ih leads
    cases leads
    have zero := ih digits rfl
    omega

end

theorem isAsciiDigit_of_mem_toDigits {n : Nat} {c : Char} (member : c ∈ Nat.toDigits 10 n) :
    isAsciiDigit c = true :=
  Nat.isDigit_of_mem_toDigits (by decide) (by decide) member

theorem ofNat_eq_cons (n : Nat) :
    ∃ c digits, ofNat n = c :: digits ∧ isAsciiDigit c = true := by
  obtain ⟨c, digits, shape⟩ := List.exists_cons_of_ne_nil (Nat.toDigits_ne_nil (n := n) (b := 10))
  exact ⟨c, digits, shape, isAsciiDigit_of_mem_toDigits (shape ▸ List.mem_cons_self)⟩

theorem isDigits_ofNat (n : Nat) : isDigits (ofNat n) = true := by
  obtain ⟨c, digits, shape, -⟩ := ofNat_eq_cons n
  rw [isDigits, Bool.and_eq_true, List.all_eq_true]
  refine ⟨?_, fun _ member => isAsciiDigit_of_mem_toDigits member⟩
  rw [shape]
  rfl

theorem appendDigits_zeros (base count : Nat) (digits : Text) :
    appendDigits base 0 (List.replicate count '0' ++ digits) = appendDigits base 0 digits := by
  induction count with
  | zero => rfl
  | succ count ih =>
      rw [← ih, List.replicate_succ, List.cons_append, appendDigits, List.foldl_cons]
      rw [show 0 * base + digitValue '0' = 0 by rw [Nat.zero_mul]; rfl]
      rfl

theorem take_takeWhile (accepts : Char → Bool) (text : Text) :
    text.take (text.takeWhile accepts).length = text.takeWhile accepts :=
  (List.prefix_iff_eq_take.mp (List.takeWhile_prefix accepts)).symm

theorem takeWhile_stop {accepts : Char → Bool} {front rest : Text}
    (all : ∀ c ∈ front, accepts c = true)
    (stop : ∀ c, rest.head? = some c → accepts c = false) :
    (front ++ rest).takeWhile accepts = front := by
  rw [List.takeWhile_append_of_pos all]
  cases rest with
  | nil => exact List.append_nil front
  | cons c rest =>
      rw [List.takeWhile_cons_of_neg (by simp [stop c rfl]), List.append_nil]

theorem exists_of_trimmed (drops : Char → Bool) (text : Text) :
    ∃ front back, text = front ++ (((text.dropWhile drops).reverse.dropWhile drops).reverse ++ back) ∧
      (∀ c ∈ front, drops c = true) ∧ ∀ c ∈ back, drops c = true := by
  let kept := text.dropWhile drops
  have last : kept = (kept.reverse.dropWhile drops).reverse ++
      (kept.reverse.takeWhile drops).reverse := by
    rw [← List.reverse_append, List.takeWhile_append_dropWhile, List.reverse_reverse]
  have whole : text = text.takeWhile drops ++ kept := List.takeWhile_append_dropWhile.symm
  rw [last] at whole
  exact ⟨_, _, whole, fun c => List.mem_takeWhile_imp,
    fun c member => List.mem_takeWhile_imp (List.mem_reverse.mp member)⟩

theorem dropWhile_solid {drops : Char → Bool} {text : Text}
    (solid : ∀ c ∈ text, drops c = false) : text.dropWhile drops = text := by
  cases text with
  | nil => rfl
  | cons c rest => exact List.dropWhile_cons_of_neg (by simp [solid c List.mem_cons_self])

theorem trimmed_append {drops : Char → Bool} {front text back : Text}
    (before : ∀ c ∈ front, drops c = true) (solid : ∀ c ∈ text, drops c = false)
    (after : ∀ c ∈ back, drops c = true) :
    (((front ++ (text ++ back)).dropWhile drops).reverse.dropWhile drops).reverse = text := by
  have around : ∀ c ∈ back.reverse, drops c = true := fun c member =>
    after c (List.mem_reverse.mp member)
  have others : ∀ c ∈ text.reverse, drops c = false := fun c member =>
    solid c (List.mem_reverse.mp member)
  rw [List.dropWhile_append_of_pos before]
  cases text with
  | nil =>
      have gone : (back ++ []).dropWhile drops = [].dropWhile drops :=
        List.dropWhile_append_of_pos after
      rw [List.append_nil, List.dropWhile_nil] at gone
      rw [List.nil_append, gone]
      rfl
  | cons c rest =>
      have stays : ¬drops c = true := by simp [solid c List.mem_cons_self]
      rw [List.cons_append, List.dropWhile_cons_of_neg stays, ← List.cons_append,
        List.reverse_append, List.dropWhile_append_of_pos around, dropWhile_solid others,
        List.reverse_reverse]

end Flowfile.Text
