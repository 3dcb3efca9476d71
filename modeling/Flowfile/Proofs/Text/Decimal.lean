import Flowfile.Value.Coercion
import Flowfile.Proofs.Text.Digits

/-! How decimal numbers are written.

The length of a number is measured at the front of a text. What is measured is a text of the form
given here, and a text of this form is measured as a whole if what follows does not go on with
it. -/

namespace Flowfile

namespace Text

inductive IsExponent : Text → Prop
  | none : IsExponent []
  | some {mark : Char} {sign digits : Text} (marked : mark = 'e' ∨ mark = 'E')
      (signed : sign = [] ∨ sign = ['-'] ∨ sign = ['+']) (number : digits.isDigits = true) :
      IsExponent (mark :: (sign ++ digits))

inductive IsFraction : Text → Prop
  | none : IsFraction []
  | some {digits : Text} (all : ∀ c ∈ digits, isAsciiDigit c = true) : IsFraction ('.' :: digits)

/-- Digits with a fraction and an exponent; not all of the digits may be missing. -/
inductive IsDecimal : Text → Prop
  | intro {whole fraction exponent : Text} (all : ∀ c ∈ whole, isAsciiDigit c = true)
      (fractional : IsFraction fraction) (written : whole ≠ [] ∨ 1 < fraction.length)
      (exponential : IsExponent exponent) : IsDecimal (whole ++ (fraction ++ exponent))

/-- What follows does not go on with a number. -/
def Ends (rest : Text) : Prop :=
  ∀ c, rest.head? = some c → isHexDigit c = false ∧ c ≠ '.' ∧ c ≠ 'x'

theorem ends_nil : Ends [] :=
  fun _ first => nomatch first

theorem isHexDigit_of_isAsciiDigit {c : Char} (digit : isAsciiDigit c = true) :
    isHexDigit c = true := by
  simp [isHexDigit, digit]

theorem ne_of_isHexDigit {c other : Char} (apart : isHexDigit c = false)
    (digit : isHexDigit other = true) : c ≠ other := by
  rintro rfl
  rw [digit] at apart
  cases apart

theorem isBlank_of_isHexDigit {c : Char} (digit : isHexDigit c = true) : isBlank c = false := by
  have range (first last : Char) (low : first ≤ c) (high : c ≤ last) (bounds : 33 ≤ first.toNat)
      (bounds' : last.toNat ≤ 126) : isBlank c = false := by
    obtain ⟨least, greatest⟩ := toNat_bounds low high
    rw [isBlank, ← Bool.not_eq_true]
    simp only [Bool.or_eq_true, Bool.and_eq_true, decide_eq_true_eq]
    omega
  simp only [isHexDigit, isAsciiDigit, Bool.or_eq_true, Bool.and_eq_true,
    decide_eq_true_eq] at digit
  rcases digit with (⟨low, high⟩ | ⟨low, high⟩) | ⟨low, high⟩
  · exact range '0' '9' low high (by decide) (by decide)
  · exact range 'a' 'f' low high (by decide) (by decide)
  · exact range 'A' 'F' low high (by decide) (by decide)

theorem ends_blank {rest : Text} (blank : ∀ c, rest.head? = some c → isBlank c = true) :
    Ends rest := by
  intro c first
  have space := blank c first
  refine ⟨?_, ?_, ?_⟩
  · rw [← Bool.not_eq_true]
    intro digit
    rw [isBlank_of_isHexDigit digit] at space
    cases space
  all_goals
    rintro rfl
    cases space

theorem Ends.noDigit {rest : Text} (ends : Ends rest) (c : Char) (first : rest.head? = some c) :
    isAsciiDigit c = false := by
  rw [← Bool.not_eq_true]
  intro digit
  have hexadecimal := isHexDigit_of_isAsciiDigit digit
  rw [(ends c first).1] at hexadecimal
  cases hexadecimal

def signLength : Text → Nat
  | s :: _ => if s = '-' || s = '+' then 1 else 0
  | [] => 0

theorem exponentLength_eq (mark : Char) (rest : Text) :
    exponentLength (mark :: rest) =
      if mark = 'e' ∨ mark = 'E' then
        let sign := signLength rest
        let count := ((rest.drop sign).takeWhile isAsciiDigit).length
        if count = 0 then 0 else 1 + sign + count
      else 0 := by
  rw [exponentLength.eq_def]
  cases rest with
  | nil => simp [signLength]
  | cons s more =>
      by_cases signed : s = '-' ∨ s = '+' <;> simp [signLength, signed]

/-- In front of digits nothing but the sign is taken for a sign. -/
theorem signLength_append {sign digits : Text} (signed : sign = [] ∨ sign = ['-'] ∨ sign = ['+'])
    (number : digits.isDigits = true) (rest : Text) :
    signLength (sign ++ (digits ++ rest)) = sign.length := by
  obtain ⟨nonempty, all⟩ := (isDigits_iff digits).mp number
  rcases signed with rfl | rfl | rfl
  · obtain ⟨d, more, rfl⟩ := List.exists_cons_of_ne_nil nonempty
    have digit := all d List.mem_cons_self
    have minus : d ≠ '-' := ne_of_isAsciiDigit digit rfl
    have plus : d ≠ '+' := ne_of_isAsciiDigit digit rfl
    simp [signLength, minus, plus]
  · rfl
  · rfl

theorem exponentLength_append {exponent rest : Text} (form : IsExponent exponent)
    (ends : Ends rest) : exponentLength (exponent ++ rest) = exponent.length := by
  cases form with
  | none =>
      cases rest with
      | nil => rfl
      | cons c rest =>
          have small : c ≠ 'e' := ne_of_isHexDigit (ends c rfl).1 rfl
          have capital : c ≠ 'E' := ne_of_isHexDigit (ends c rfl).1 rfl
          rw [List.nil_append, exponentLength_eq, if_neg (by simp [small, capital])]
          rfl
  | @some mark sign digits marked signed number =>
      obtain ⟨nonempty, all⟩ := (isDigits_iff digits).mp number
      have taken : (digits ++ rest).takeWhile isAsciiDigit = digits :=
        takeWhile_stop all ends.noDigit
      have size := signLength_append signed number rest
      rw [List.cons_append, List.append_assoc, exponentLength_eq, if_pos marked]
      dsimp only
      rw [size, List.drop_left, taken, if_neg (by simpa using nonempty), List.length_cons,
        List.length_append]
      omega

theorem length_le_takeWhile {digits : Text} (all : ∀ c ∈ digits, isAsciiDigit c = true)
    (rest : Text) : digits.length ≤ ((digits ++ rest).takeWhile isAsciiDigit).length := by
  rw [List.takeWhile_append_of_pos all, List.length_append]
  exact Nat.le_add_right _ _

theorem IsExponent.length_le {exponent : Text} (form : IsExponent exponent) (rest : Text) :
    exponent.length ≤ exponentLength (exponent ++ rest) := by
  cases form with
  | none => exact Nat.zero_le _
  | @some mark sign digits marked signed number =>
      obtain ⟨nonempty, all⟩ := (isDigits_iff digits).mp number
      have present := List.length_pos_iff.mpr nonempty
      have taken := length_le_takeWhile all rest
      rw [List.cons_append, List.append_assoc, exponentLength_eq, if_pos marked]
      dsimp only
      rw [signLength_append signed number, List.drop_left, if_neg (by omega), List.length_cons,
        List.length_append]
      omega

def fractionLength (whole : Nat) (text : Text) : Nat :=
  match text with
  | '.' :: rest =>
    let count := (rest.takeWhile isAsciiDigit).length
    if whole = 0 && count = 0 then 0 else 1 + count
  | _ => 0

theorem decimalLiteralLength_eq (text : Text) :
    decimalLiteralLength text =
      let whole := (text.takeWhile isAsciiDigit).length
      let fraction := fractionLength whole (text.drop whole)
      if whole + fraction = 0 then 0
      else whole + fraction + exponentLength (text.drop (whole + fraction)) := by
  rfl

theorem fractionLength_append {fraction more : Text} (form : IsFraction fraction) {whole : Nat}
    (written : whole ≠ 0 ∨ 1 < fraction.length)
    (stop : ∀ c, more.head? = some c → isAsciiDigit c = false ∧ c ≠ '.') :
    fractionLength whole (fraction ++ more) = fraction.length := by
  cases form with
  | none =>
      have other : ∀ rest, more ≠ '.' :: rest := by
        rintro rest rfl
        exact (stop '.' rfl).2 rfl
      rw [List.nil_append, fractionLength.eq_2 _ _ other]
      rfl
  | @some digits figures =>
      have taken : (digits ++ more).takeWhile isAsciiDigit = digits :=
        takeWhile_stop figures fun c first => (stop c first).1
      have present : ¬(whole = 0 ∧ digits.length = 0) := by
        rw [List.length_cons] at written
        omega
      rw [List.cons_append, fractionLength, taken]
      simp only [Bool.and_eq_true, decide_eq_true_eq, present, if_false]
      rw [List.length_cons, Nat.add_comm]

theorem decimalLiteralLength_front {whole fraction more : Text}
    (all : ∀ c ∈ whole, isAsciiDigit c = true) (fractional : IsFraction fraction)
    (written : whole ≠ [] ∨ 1 < fraction.length)
    (stop : ∀ c, more.head? = some c → isAsciiDigit c = false ∧ c ≠ '.') :
    decimalLiteralLength (whole ++ (fraction ++ more)) =
      whole.length + fraction.length + exponentLength more := by
  have stop' (c : Char) (first : (fraction ++ more).head? = some c) :
      isAsciiDigit c = false := by
    cases fractional with
    | none => exact (stop c first).1
    | some =>
        cases first
        rfl
  have taken : (whole ++ (fraction ++ more)).takeWhile isAsciiDigit = whole :=
    takeWhile_stop all stop'
  have point : fractionLength whole.length (fraction ++ more) = fraction.length :=
    fractionLength_append fractional (by simpa using written) stop
  have present : ¬whole.length + fraction.length = 0 := by
    rcases written with written | written
    · simp [written]
    · omega
  rw [decimalLiteralLength_eq, taken]
  dsimp only
  rw [List.drop_left, point, if_neg present, ← List.drop_drop, List.drop_left, List.drop_left]

theorem stop_of_mark {mark : Char} {more : Text} (marked : mark = 'e' ∨ mark = 'E') (c : Char)
    (first : (mark :: more).head? = some c) : isAsciiDigit c = false ∧ c ≠ '.' := by
  cases first
  rcases marked with rfl | rfl <;> decide

theorem decimalLiteralLength_append {text rest : Text} (form : IsDecimal text)
    (ends : Ends rest) : decimalLiteralLength (text ++ rest) = text.length := by
  obtain @⟨whole, fraction, exponent, all, fractional, written, exponential⟩ := form
  have stop (c : Char) (first : (exponent ++ rest).head? = some c) :
      isAsciiDigit c = false ∧ c ≠ '.' := by
    cases exponential with
    | none => exact ⟨ends.noDigit c first, (ends c first).2.1⟩
    | some marked => exact stop_of_mark marked c first
  rw [List.append_assoc, List.append_assoc, decimalLiteralLength_front all fractional written stop,
    exponentLength_append exponential ends, List.length_append, List.length_append, Nat.add_assoc]

theorem IsFraction.length_le {fraction : Text} (form : IsFraction fraction) {whole : Nat}
    (written : whole ≠ 0 ∨ 1 < fraction.length) (rest : Text) :
    fraction.length ≤ fractionLength whole (fraction ++ rest) := by
  cases form with
  | none => exact Nat.zero_le _
  | @some digits all =>
      have taken := length_le_takeWhile all rest
      rw [List.length_cons] at written
      rw [List.cons_append, fractionLength, List.length_cons]
      split
      · rename_i bare
        simp only [Bool.and_eq_true, decide_eq_true_eq] at bare
        omega
      · omega

theorem takeWhile_le_decimalLiteralLength (text : Text) :
    (text.takeWhile isAsciiDigit).length ≤ decimalLiteralLength text := by
  rw [decimalLiteralLength_eq]
  dsimp only
  split <;> omega

theorem IsDecimal.length_le {text : Text} (form : IsDecimal text) (rest : Text) :
    text.length ≤ decimalLiteralLength (text ++ rest) := by
  obtain @⟨whole, fraction, exponent, all, fractional, present, exponential⟩ := form
  rw [List.append_assoc, List.append_assoc, List.length_append, List.length_append]
  cases exponential with
  | some marked signed number =>
      have longest := (IsExponent.some marked signed number).length_le rest
      rw [List.cons_append] at longest ⊢
      rw [decimalLiteralLength_front all fractional present (stop_of_mark marked)]
      omega
  | none =>
      rw [List.nil_append, List.length_nil, Nat.add_zero]
      cases fractional with
      | none =>
          have taken := length_le_takeWhile all rest
          exact Nat.le_trans taken (takeWhile_le_decimalLiteralLength _)
      | @some digits figures =>
          have taken : (whole ++ ('.' :: digits ++ rest)).takeWhile isAsciiDigit = whole :=
            takeWhile_stop all fun c first => by
              cases first
              rfl
          have counted : whole.length ≠ 0 ∨ 1 < ('.' :: digits).length := by
            simpa using present
          have longest := (IsFraction.some figures).length_le counted rest
          rw [decimalLiteralLength_eq, taken]
          dsimp only
          rw [List.drop_left]
          split
          · omega
          · omega

theorem decimalLiteralLength_whole {text : Text} (form : IsDecimal text) :
    decimalLiteralLength text = text.length := by
  simpa using decimalLiteralLength_append form ends_nil

theorem isDigits_takeWhile {text : Text} (nonzero : (text.takeWhile isAsciiDigit).length ≠ 0) :
    isDigits (text.takeWhile isAsciiDigit) = true :=
  (isDigits_iff _).mpr ⟨by simpa using nonzero, fun _ => List.mem_takeWhile_imp⟩

theorem take_signLength (text : Text) :
    text.take (signLength text) = [] ∨ text.take (signLength text) = ['-'] ∨
      text.take (signLength text) = ['+'] := by
  cases text with
  | nil => exact .inl rfl
  | cons s more =>
      rw [signLength]
      split
      · rename_i sign
        simp only [Bool.or_eq_true, decide_eq_true_eq] at sign
        rcases sign with rfl | rfl
        · exact .inr (.inl rfl)
        · exact .inr (.inr rfl)
      · exact .inl rfl

theorem exponentLength_form (text : Text) : IsExponent (text.take (exponentLength text)) := by
  cases text with
  | nil => exact .none
  | cons mark rest =>
      rw [exponentLength_eq]
      split
      · rename_i marked
        dsimp only
        split
        · exact .none
        · rename_i nonzero
          have shape (sign count : Nat) : (mark :: rest).take (1 + sign + count) =
              mark :: (rest.take sign ++ (rest.drop sign).take count) := by
            rw [Nat.add_assoc, Nat.add_comm 1, List.take_succ_cons, List.take_add]
          rw [shape, take_takeWhile]
          exact .some marked (take_signLength rest) (isDigits_takeWhile nonzero)
      · exact .none

theorem fractionLength_form (whole : Nat) (text : Text) :
    IsFraction (text.take (fractionLength whole text)) ∧ (fractionLength whole text ≠ 0 →
      whole ≠ 0 ∨ 1 < (text.take (fractionLength whole text)).length) := by
  rw [fractionLength.eq_def]
  split
  · rename_i rest
    dsimp only
    split
    · exact ⟨.none, fun nonzero => absurd rfl nonzero⟩
    · rename_i nonzero
      simp only [Bool.and_eq_true, decide_eq_true_eq] at nonzero
      rw [Nat.add_comm, List.take_succ_cons, take_takeWhile]
      refine ⟨.some (fun _ => List.mem_takeWhile_imp), fun _ => ?_⟩
      rw [List.length_cons]
      omega
  · exact ⟨.none, fun nonzero => absurd rfl nonzero⟩

theorem decimalLiteralLength_form {text : Text} (nonzero : decimalLiteralLength text ≠ 0) :
    IsDecimal (text.take (decimalLiteralLength text)) := by
  rw [decimalLiteralLength_eq] at nonzero ⊢
  dsimp only at nonzero ⊢
  have shape (whole fraction exponent : Nat) : text.take (whole + fraction + exponent) =
      text.take whole ++ ((text.drop whole).take fraction ++
        (text.drop (whole + fraction)).take exponent) := by
    rw [List.take_add, List.take_add, List.append_assoc]
  obtain ⟨fractional, present⟩ := fractionLength_form (text.takeWhile isAsciiDigit).length
    (text.drop (text.takeWhile isAsciiDigit).length)
  split at nonzero
  · exact absurd rfl nonzero
  · rename_i numeral
    rw [if_neg numeral, shape, take_takeWhile]
    refine .intro (fun _ => List.mem_takeWhile_imp) fractional ?_ (exponentLength_form _)
    rw [← List.length_pos_iff]
    omega

theorem isDecimal_of_whole {text : Text}
    (whole : (!text.isEmpty && decimalLiteralLength text = text.length) = true) :
    IsDecimal text := by
  rw [Bool.and_eq_true, decide_eq_true_eq] at whole
  obtain ⟨present, length⟩ := whole
  have nonzero : decimalLiteralLength text ≠ 0 := by
    rw [length]
    simpa using present
  have form := decimalLiteralLength_form nonzero
  rwa [length, List.take_length] at form

theorem isDecimal_of_isDigits {text : Text} (digits : text.isDigits = true) : IsDecimal text := by
  obtain ⟨nonempty, all⟩ := (isDigits_iff text).mp digits
  have form : IsDecimal (text ++ ([] ++ [])) := .intro all .none (.inl nonempty) .none
  simpa using form

theorem IsDecimal.mem {text : Text} (form : IsDecimal text) {c : Char} (member : c ∈ text) :
    isAsciiDigit c = true ∨ c ∈ ['.', 'e', 'E', '-', '+'] := by
  obtain ⟨all, fractional, -, exponential⟩ := form
  rcases List.mem_append.mp member with first | member
  · exact .inl (all c first)
  rcases List.mem_append.mp member with point | power
  · cases fractional with
    | none => cases point
    | some figures =>
        rcases List.mem_cons.mp point with rfl | figure
        · exact .inr (by decide)
        · exact .inl (figures c figure)
  · cases exponential with
    | none => cases power
    | some marked signed number =>
        rcases List.mem_cons.mp power with rfl | power
        · rcases marked with rfl | rfl <;> exact .inr (by decide)
        rcases List.mem_append.mp power with sign | digit
        · rcases signed with rfl | rfl | rfl
          · cases sign
          all_goals
            cases List.mem_singleton.mp sign
            exact .inr (by decide)
        · exact .inl (((isDigits_iff _).mp number).2 c digit)

theorem IsDecimal.noMark {text : Text} (form : IsDecimal text) : 'x' ∉ text := by
  intro member
  rcases form.mem member with digit | mark
  · cases digit
  · exact absurd mark (by decide)

theorem IsDecimal.head {text : Text} (form : IsDecimal text) :
    ∃ c rest, text = c :: rest ∧ (isAsciiDigit c = true ∨ c = '.') := by
  obtain @⟨whole, fraction, exponent, all, fractional, written, exponential⟩ := form
  cases whole with
  | cons c whole => exact ⟨c, _, rfl, .inl (all c List.mem_cons_self)⟩
  | nil =>
      cases fractional with
      | some figures => exact ⟨'.', _, rfl, .inr rfl⟩
      | none => simp at written

end Text

end Flowfile
