import Flowfile.Json.Reader
import Flowfile.Json.Writer
import Flowfile.Proofs.Number.Range
import Flowfile.Proofs.Text.Digits

/-! Integers as they are written in JSON and read back, and what may stand after a value. -/

namespace Flowfile.Json

/-- What stands after a value in a written text: nothing, a comma or the end of the line. -/
def Follows (rest : Text) : Prop := ∀ c, rest.head? = some c → c = ',' ∨ c = '\n'

theorem follows_nil : Follows [] := by
  intro c first
  cases first

theorem follows_comma (rest : Text) : Follows (',' :: rest) := by
  intro c first
  cases first
  exact .inl rfl

theorem follows_newline (depth : Nat) (rest : Text) : Follows (newline depth ++ rest) := by
  intro c first
  cases first
  exact .inr rfl

section

variable {rest : Text} (follows : Follows rest)

include follows

theorem Follows.noDigit (c : Char) (first : rest.head? = some c) :
    Text.isAsciiDigit c = false := by
  rcases follows c first with rfl | rfl <;> rfl

theorem Follows.noExponent : exponentLength rest = 0 := by
  cases rest with
  | nil => rfl
  | cons c rest => rcases follows c rfl with rfl | rfl <;> rfl

theorem readUnsigned_ofNat (negative : Bool) (start : Text) {n : Nat}
    (few : (Text.ofNat n).length ≤ digitLimit) :
    readUnsigned negative start (Text.ofNat n ++ rest) =
      .ok (.int (if negative then -(n : Int) else n), rest) := by
  have value : Text.readDigits 10 (Text.ofNat n) = n :=
    Text.readDigits_toDigits (by decide) (by decide) n
  have taken : (Text.ofNat n ++ rest).takeWhile Text.isAsciiDigit = Text.ofNat n :=
    Text.takeWhile_stop (fun c member => Text.isAsciiDigit_of_mem_toDigits member) follows.noDigit
  obtain ⟨c, more, shape, -⟩ := Text.ofNat_eq_cons n
  have nonzero : (Text.ofNat n).length ≠ 0 := by
    rw [shape]
    exact Nat.succ_ne_zero _
  have single (zero : c = '0') : more = [] := by
    have nothing : n = 0 := Text.toDigits_leading (by decide) (by decide) (zero ▸ shape)
    rw [nothing] at shape
    exact (List.cons.inj shape).2.symm
  unfold readUnsigned
  extract_lets whole fraction exponent size after magnitude
  have sizeWhole : whole = (Text.ofNat n).length := by
    dsimp only [whole]
    split
    · rename_i tail zero
      rw [shape, List.cons_append] at zero
      rw [shape, single (List.cons.inj zero).1]
      rfl
    · rw [taken]
  clear_value whole
  subst sizeWhole
  have noFraction : fraction = 0 := by
    dsimp only [fraction]
    rw [List.drop_left]
    split
    · rcases follows '.' rfl with other | other <;> cases other
    · rfl
  clear_value fraction
  subst noFraction
  have noExponent : exponent = 0 := by
    dsimp only [exponent]
    rw [Nat.add_zero, List.drop_left]
    exact follows.noExponent
  clear_value exponent
  subst noExponent
  have left : after = rest := List.drop_left
  have read : magnitude = n := by
    dsimp only [magnitude]
    rw [List.take_left, value]
  rw [if_neg nonzero, if_pos rfl, if_neg (Nat.not_lt.mpr few), left, read]

theorem readNumber_ofInt {i : Int} (few : (Text.ofNat i.natAbs).length ≤ digitLimit) :
    readNumber (Text.ofInt i ++ rest) = .ok (.int i, rest) := by
  cases i with
  | ofNat n =>
      obtain ⟨c, digits, shape, digit⟩ := Text.ofNat_eq_cons n
      have unsigned : c ≠ '-' := Text.ne_of_isAsciiDigit digit rfl
      have positive : readNumber (Text.ofNat n ++ rest) =
          readUnsigned false (Text.ofNat n ++ rest) (Text.ofNat n ++ rest) := by
        rw [shape]
        simp [readNumber, unsigned]
      exact positive.trans (readUnsigned_ofNat follows false _ few)
  | negSucc n =>
      exact readUnsigned_ofNat follows true _ few

end

end Flowfile.Json
