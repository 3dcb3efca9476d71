import Flowfile.Proofs.Text.Decimal

/-! Decimal literals, with a fraction and without, as digits and a power of ten. -/

namespace Flowfile

namespace Text

theorem readDigits_ofNat (n : Nat) : readDigits 10 (ofNat n) = n :=
  readDigits_toDigits (by decide) (by decide) n

theorem readDigits_zeros (count : Nat) (digits : Text) :
    readDigits 10 (List.replicate count '0' ++ digits) = readDigits 10 digits := by
  rw [readDigits_eq, readDigits_eq]
  exact appendDigits_zeros 10 count digits

theorem isAsciiDigit_of_mem_zeros {count : Nat} {c : Char} (member : c ∈ List.replicate count '0') :
    isAsciiDigit c = true := by
  rw [List.eq_of_mem_replicate member]
  rfl

theorem dropWhile_stop {accepts : Char → Bool} {front rest : Text}
    (all : ∀ c ∈ front, accepts c = true)
    (stop : ∀ c, rest.head? = some c → accepts c = false) :
    (front ++ rest).dropWhile accepts = rest := by
  rw [List.dropWhile_append_of_pos all]
  cases rest with
  | nil => rfl
  | cons c rest => exact List.dropWhile_cons_of_neg (by simp [stop c rfl])

end Text

namespace Decimal

open Text

def exponentOf : Text → Int
  | _ :: '-' :: rest => -(readDigits 10 rest : Int)
  | _ :: '+' :: rest => readDigits 10 rest
  | _ :: rest => readDigits 10 rest
  | [] => 0

section

variable {whole tail : Text} (all : ∀ c ∈ whole, isAsciiDigit c = true)

include all

theorem ofLiteral_whole
    (stop : ∀ c, tail.head? = some c → isAsciiDigit c = false ∧ c ≠ '.') :
    ofLiteral (whole ++ tail) = ⟨readDigits 10 whole, exponentOf tail⟩ := by
  have front := takeWhile_stop all fun c first => (stop c first).1
  have back := dropWhile_stop all fun c first => (stop c first).1
  rw [ofLiteral, front, back]
  cases tail with
  | nil => simp [exponentOf]
  | cons c rest =>
      have apart := (stop c rfl).2
      simp only [List.cons.injEq, apart, false_and, imp_self, implies_true, List.append_nil,
        List.length_nil]
      exact congrArg (Decimal.mk _) (Int.sub_zero _)

theorem ofLiteral_fraction {fraction : Text} (digits : ∀ c ∈ fraction, isAsciiDigit c = true)
    (stop : ∀ c, tail.head? = some c → isAsciiDigit c = false) :
    ofLiteral (whole ++ '.' :: (fraction ++ tail)) =
      ⟨readDigits 10 (whole ++ fraction), exponentOf tail - fraction.length⟩ := by
  have point (c : Char) (first : ('.' :: (fraction ++ tail)).head? = some c) :
      isAsciiDigit c = false := by
    cases first
    rfl
  rw [ofLiteral, takeWhile_stop all point, dropWhile_stop all point]
  simp only [takeWhile_stop digits stop, dropWhile_stop digits stop]
  rfl

theorem ofLiteral_run : ofLiteral whole = ⟨readDigits 10 whole, 0⟩ := by
  have read : ofLiteral (whole ++ []) = _ := ofLiteral_whole all fun _ first => nomatch first
  simpa only [List.append_nil, exponentOf] using read

theorem ofLiteral_point {fraction : Text} (digits : ∀ c ∈ fraction, isAsciiDigit c = true) :
    ofLiteral (whole ++ '.' :: fraction) =
      ⟨readDigits 10 (whole ++ fraction), -fraction.length⟩ := by
  have read : ofLiteral (whole ++ '.' :: (fraction ++ [])) = _ :=
    ofLiteral_fraction all digits fun _ first => nomatch first
  simpa only [List.append_nil, exponentOf, Int.zero_sub] using read

end

end Decimal

end Flowfile
