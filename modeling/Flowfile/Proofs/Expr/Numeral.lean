import Flowfile.Expr.Token
import Flowfile.Proofs.Text.Decimal

/-! How numbers are written in an expression, and which texts convert to numbers.

The tokenizer and the conversion of texts take the same numbers, with these exceptions: a text may
have a plus sign, and hexadecimal digits in a text may have no sign. -/

namespace Flowfile

namespace Token

open Text

inductive IsUnsigned : Text → Prop
  | hexadecimal {digits : Text} (nonempty : digits ≠ []) (all : ∀ c ∈ digits, isHexDigit c = true) :
      IsUnsigned ('0' :: 'x' :: digits)
  | decimal {text : Text} (form : IsDecimal text) : IsUnsigned text

inductive IsNumeral : Text → Prop
  | unsigned {text : Text} (form : IsUnsigned text) : IsNumeral text
  | negative {text : Text} (form : IsUnsigned text) : IsNumeral ('-' :: text)

theorem IsUnsigned.head {text : Text} (form : IsUnsigned text) :
    ∃ c rest, text = c :: rest ∧ (isAsciiDigit c = true ∨ c = '.') := by
  cases form with
  | hexadecimal => exact ⟨'0', _, rfl, .inl rfl⟩
  | decimal form => exact form.head

theorem IsUnsigned.noSign_append {text : Text} (form : IsUnsigned text) (more rest : Text) :
    text ++ more ≠ '-' :: rest := by
  obtain ⟨c, others, rfl, starts⟩ := form.head
  intro same
  cases same
  rcases starts with digit | point
  · cases digit
  · cases point

theorem IsUnsigned.noSign {text : Text} (form : IsUnsigned text) (rest : Text) :
    text ≠ '-' :: rest := by
  simpa using form.noSign_append [] rest

theorem IsNumeral.head {text : Text} (form : IsNumeral text) :
    ∃ c rest, text = c :: rest ∧ (isAsciiDigit c = true ∨ c = '-' ∨ c = '.') := by
  cases form with
  | negative => exact ⟨'-', _, rfl, .inr (.inl rfl)⟩
  | unsigned form =>
      obtain ⟨c, rest, rfl, starts⟩ := form.head
      exact ⟨c, rest, rfl, starts.imp_right .inr⟩

theorem IsUnsigned.mem {text : Text} (form : IsUnsigned text) {c : Char} (member : c ∈ text) :
    isHexDigit c = true ∨ c ∈ ['x', '.', '-', '+'] := by
  cases form with
  | hexadecimal nonempty all =>
      rcases List.mem_cons.mp member with rfl | member
      · exact .inl rfl
      rcases List.mem_cons.mp member with rfl | digit
      · exact .inr (by decide)
      · exact .inl (all c digit)
  | decimal form =>
      rcases form.mem member with digit | mark
      · exact .inl (isHexDigit_of_isAsciiDigit digit)
      · revert mark
        simp only [List.mem_cons, List.not_mem_nil, or_false]
        rintro (rfl | rfl | rfl | rfl | rfl) <;> decide

theorem IsNumeral.mem {text : Text} (form : IsNumeral text) {c : Char} (member : c ∈ text) :
    isHexDigit c = true ∨ c ∈ ['x', '.', '-', '+'] := by
  cases form with
  | unsigned form => exact form.mem member
  | negative form =>
      rcases List.mem_cons.mp member with rfl | member
      · exact .inr (by decide)
      · exact form.mem member

theorem IsNumeral.solid {text : Text} (form : IsNumeral text) (c : Char) (member : c ∈ text) :
    isBlank c = false := by
  rcases form.mem member with digit | mark
  · exact isBlank_of_isHexDigit digit
  · simp only [List.mem_cons, List.not_mem_nil, or_false] at mark
    rcases mark with rfl | rfl | rfl | rfl <;> rfl

theorem IsNumeral.bare {text : Text} (form : IsNumeral text) : '\'' ∉ text := by
  intro member
  rcases form.mem member with digit | mark
  · cases digit
  · exact absurd mark (by decide)

theorem hexLiteralLength_some {text : Text} (nonzero : hexLiteralLength text ≠ 0) :
    (∃ more, text = '0' :: 'x' :: more) ∧ 2 < hexLiteralLength text := by
  rw [hexLiteralLength.eq_def] at nonzero ⊢
  split at nonzero
  · rename_i more
    refine ⟨⟨more, rfl⟩, ?_⟩
    dsimp only at nonzero ⊢
    split at nonzero
    · exact absurd rfl nonzero
    · rename_i several
      rw [if_neg several]
      omega
  · exact absurd rfl nonzero

/-- Only the zero in front of the mark of a hexadecimal number is a decimal number. -/
theorem decimal_length_le_one {text rest more : Text} (form : IsDecimal text)
    (hexadecimal : text ++ rest = '0' :: 'x' :: more) : text.length ≤ 1 := by
  match text, form with
  | [], _ | [_], _ => simp
  | c :: d :: text, form =>
      obtain rfl : d = 'x' := (List.cons.inj (List.cons.inj hexadecimal).2).1
      exact absurd (by simp) form.noMark

section

variable {rest : Text} (ends : Ends rest)

include ends

theorem hexLiteralLength_decimal {text : Text} (form : IsDecimal text) :
    hexLiteralLength (text ++ rest) = 0 := by
  refine Decidable.byContradiction fun nonzero => ?_
  obtain ⟨⟨more, same⟩, -⟩ := hexLiteralLength_some nonzero
  obtain ⟨c, others, rfl, -⟩ := form.head
  cases others with
  | nil =>
      obtain rfl : rest = 'x' :: more := (List.cons.inj same).2
      exact (ends 'x' rfl).2.2 rfl
  | cons d others => exact absurd (decimal_length_le_one form same) (by simp)

theorem hexLiteralLength_append {digits : Text} (nonempty : digits ≠ [])
    (all : ∀ c ∈ digits, isHexDigit c = true) :
    hexLiteralLength ('0' :: 'x' :: digits ++ rest) = digits.length + 2 := by
  have taken : (digits ++ rest).takeWhile isHexDigit = digits :=
    takeWhile_stop all fun c first => (ends c first).1
  rw [List.cons_append, List.cons_append, hexLiteralLength, taken]
  simp [nonempty]

theorem unsignedLength_append {text : Text} (form : IsUnsigned text) :
    unsignedLength (text ++ rest) = text.length := by
  cases form with
  | hexadecimal nonempty all =>
      rw [unsignedLength, hexLiteralLength_append ends nonempty all, if_neg (by omega)]
      rfl
  | decimal form =>
      rw [unsignedLength, if_pos (hexLiteralLength_decimal ends form),
        decimalLiteralLength_append form ends]

theorem numberLength_append {text : Text} (form : IsNumeral text) :
    numberLength (text ++ rest) = text.length := by
  cases form with
  | unsigned form =>
      rw [numberLength.eq_2 _ (form.noSign_append rest), unsignedLength_append ends form]
  | @negative text form =>
      have length := unsignedLength_append ends form
      have nonzero : text.length ≠ 0 := by
        obtain ⟨c, others, rfl, -⟩ := form.head
        exact Nat.succ_ne_zero _
      rw [List.cons_append, numberLength, length, if_neg nonzero, List.length_cons]

end

theorem IsNumeral.length_pos {text : Text} (form : IsNumeral text) : 0 < text.length := by
  obtain ⟨c, rest, rfl, -⟩ := form.head
  exact Nat.succ_pos _

theorem IsUnsigned.length_le {text : Text} (form : IsUnsigned text) (rest : Text) :
    text.length ≤ unsignedLength (text ++ rest) := by
  cases form with
  | @hexadecimal digits nonempty all =>
      have taken : digits.length ≤ ((digits ++ rest).takeWhile isHexDigit).length := by
        rw [List.takeWhile_append_of_pos all, List.length_append]
        exact Nat.le_add_right _ _
      have present := List.length_pos_iff.mpr nonempty
      have length : hexLiteralLength ('0' :: 'x' :: digits ++ rest) =
          ((digits ++ rest).takeWhile isHexDigit).length + 2 := by
        rw [List.cons_append, List.cons_append, hexLiteralLength]
        exact if_neg (by omega)
      rw [unsignedLength, length, if_neg (by omega)]
      exact Nat.add_le_add_right taken 2
  | decimal form =>
      rw [unsignedLength]
      split
      · exact form.length_le rest
      · rename_i hexadecimal
        obtain ⟨⟨more, same⟩, several⟩ := hexLiteralLength_some hexadecimal
        have short := decimal_length_le_one form same
        omega

theorem IsNumeral.length_le {text : Text} (form : IsNumeral text) (rest : Text) :
    text.length ≤ numberLength (text ++ rest) := by
  cases form with
  | unsigned form =>
      rw [numberLength.eq_2 _ (form.noSign_append rest)]
      exact form.length_le rest
  | @negative text form =>
      have longest := form.length_le rest
      have present := (IsNumeral.unsigned form).length_pos
      rw [List.cons_append, numberLength, if_neg (by omega), List.length_cons]
      omega

theorem unsignedLength_form {text : Text} (nonzero : unsignedLength text ≠ 0) :
    IsUnsigned (text.take (unsignedLength text)) := by
  rw [unsignedLength] at nonzero ⊢
  split at nonzero
  · rename_i zero
    rw [if_pos zero]
    exact .decimal (decimalLiteralLength_form nonzero)
  · rename_i hexadecimal
    rw [if_neg hexadecimal]
    rw [hexLiteralLength.eq_def] at hexadecimal ⊢
    split at hexadecimal
    · rename_i digits
      dsimp only at hexadecimal ⊢
      split at hexadecimal
      · exact absurd rfl hexadecimal
      · rename_i several
        rw [if_neg several, List.take_succ_cons, List.take_succ_cons, take_takeWhile]
        exact .hexadecimal (by simpa using several) fun _ => List.mem_takeWhile_imp
    · exact absurd rfl hexadecimal

theorem numberLength_form {text : Text} (nonzero : numberLength text ≠ 0) :
    IsNumeral (text.take (numberLength text)) := by
  rw [numberLength.eq_def] at nonzero ⊢
  split at nonzero
  · rename_i rest
    split at nonzero
    · exact absurd rfl nonzero
    · rename_i several
      rw [if_neg several, List.take_succ_cons]
      exact .negative (unsignedLength_form several)
  · exact .unsigned (unsignedLength_form nonzero)

theorem numberLength_le_length (text : Text) : numberLength text ≤ text.length := by
  rcases Nat.le_total (numberLength text) text.length with within | beyond
  · exact within
  · by_cases none : numberLength text = 0
    · rw [none]
      exact Nat.zero_le _
    · -- What is taken is a number, so the whole text is one.
      have form := numberLength_form none
      rw [List.take_of_length_le beyond] at form
      have whole := numberLength_append ends_nil form
      rw [List.append_nil] at whole
      exact Nat.le_of_eq whole

end Token

namespace Text

theorem strip_solid {text : Text} (solid : ∀ c ∈ text, isBlank c = false) :
    strip text = text := by
  have trimmed : strip ([] ++ (text ++ [])) = text := trimmed_append (by simp) solid (by simp)
  rwa [List.append_nil, List.nil_append] at trimmed

theorem exists_of_strip (text : Text) :
    ∃ front back, text = front ++ (strip text ++ back) ∧ (∀ c ∈ front, isBlank c = true) ∧
      ∀ c ∈ back, isBlank c = true :=
  exists_of_trimmed isBlank text

theorem toNumber?_hexadecimal {digits : Text} (nonempty : digits ≠ [])
    (all : ∀ c ∈ digits, isHexDigit c = true) :
    toNumber? ('0' :: 'x' :: digits) = some (.ofInt (readDigits 16 digits)) := by
  have form : Token.IsNumeral ('0' :: 'x' :: digits) := .unsigned (.hexadecimal nonempty all)
  have given : (!digits.isEmpty && digits.all isHexDigit) = true := by
    rw [Bool.and_eq_true, List.all_eq_true]
    exact ⟨by simpa using nonempty, all⟩
  rw [toNumber?, strip_solid form.solid]
  simp only [given, if_true]

theorem toNumber?_decimal {text : Text} (form : IsDecimal text) :
    toNumber? text = some ((Decimal.ofLiteral text).toDouble false) := by
  have numeral : Token.IsNumeral text := .unsigned (.decimal form)
  have length := decimalLiteralLength_whole form
  have other := form.noMark
  obtain ⟨c, rest, rfl, starts⟩ := form.head
  have unsigned : c ≠ '-' ∧ c ≠ '+' := by
    rcases starts with digit | rfl
    · exact ⟨ne_of_isAsciiDigit digit rfl, ne_of_isAsciiDigit digit rfl⟩
    · decide
  rw [toNumber?, strip_solid numeral.solid]
  split
  · rename_i zero
    cases zero
  · rename_i digits hexadecimal
    exact absurd (by rw [hexadecimal]; simp) other
  · rename_i first more _ shape
    cases shape
    simp [unsigned, length]

theorem toNumber?_signed {sign : Char} {text : Text} (signed : sign = '-' ∨ sign = '+')
    (form : IsDecimal text) :
    toNumber? (sign :: text) = some ((Decimal.ofLiteral text).toDouble (sign = '-')) := by
  have numeral : Token.IsNumeral text := .unsigned (.decimal form)
  have solid : ∀ c ∈ sign :: text, isBlank c = false := by
    intro c member
    rcases List.mem_cons.mp member with rfl | member
    · rcases signed with rfl | rfl <;> rfl
    · exact numeral.solid c member
  have length := decimalLiteralLength_whole form
  have nonempty : text ≠ [] := by
    obtain ⟨c, rest, rfl, -⟩ := form.head
    simp
  rw [toNumber?, strip_solid solid]
  split
  · rename_i zero
    cases zero
  · rename_i digits hexadecimal
    cases hexadecimal
    rcases signed with zero | zero <;> cases zero
  · rename_i first more _ shape
    cases shape
    simp [signed, nonempty, length]

theorem toNumber?_signed_hexadecimal {digits : Text} (nonempty : digits ≠ [])
    (all : ∀ c ∈ digits, isHexDigit c = true) :
    toNumber? ('-' :: '0' :: 'x' :: digits) = none := by
  have form : Token.IsNumeral ('-' :: '0' :: 'x' :: digits) := .negative (.hexadecimal nonempty all)
  have length : decimalLiteralLength ('0' :: 'x' :: digits) = 1 := rfl
  rw [toNumber?, strip_solid form.solid]
  simp [length]

theorem toNumber?_form {text : Text} {d : Double} (number : toNumber? text = some d) :
    strip text = [] ∨ Token.IsUnsigned (strip text) ∨
      ∃ sign body, strip text = sign :: body ∧ (sign = '-' ∨ sign = '+') ∧ IsDecimal body := by
  rw [toNumber?] at number
  dsimp only at number
  split at number
  · rename_i zero
    exact .inl zero
  · rename_i digits hexadecimal
    split at number
    · rename_i given
      rw [Bool.and_eq_true, List.all_eq_true] at given
      rw [hexadecimal]
      exact .inr (.inl (.hexadecimal (by simpa using given.1) given.2))
    · cases number
  · rename_i first rest _ shape
    rw [shape] at number ⊢
    right
    split at number
    · rename_i signed
      simp only [Bool.or_eq_true, decide_eq_true_eq] at signed
      split at number
      · rename_i given
        exact .inr ⟨first, rest, rfl, signed, isDecimal_of_whole given⟩
      · cases number
    · split at number
      · rename_i given
        exact .inl (.decimal (isDecimal_of_whole given))
      · cases number

end Text

end Flowfile
