import Flowfile.Proofs.Expr.Arity
import Flowfile.Proofs.Text.Decimal

/-! Templates of `format`: plain characters, doubled braces, and numbers in braces.

A template is filled just when it is made of such parts and each number has its argument. There is
one way to split it then, and what is filled in is not looked at again. -/

namespace Flowfile.Format

def IsBrace (c : Char) : Prop := c = '\x7b' ∨ c = '\x7d'

inductive Part
  | plain (c : Char)
  | opening
  | closing
  | argument (digits : Text)

namespace Part

def written : Part → Text
  | .plain c => [c]
  | .opening => ['\x7b', '\x7b']
  | .closing => ['\x7d', '\x7d']
  | .argument digits => '\x7b' :: (digits ++ ['\x7d'])

def Fits (count : Nat) : Part → Prop
  | .plain c => ¬IsBrace c
  | .opening | .closing => True
  | .argument digits =>
    digits.isDigits = true ∧ digits.length ≤ 9 ∧ Text.readDigits 10 digits < count

def filled (args : List Text) : Part → Text
  | .plain c => [c]
  | .opening => ['\x7b']
  | .closing => ['\x7d']
  | .argument digits => args.getD (Text.readDigits 10 digits) []

end Part

/-- The parts are those of the template, for so many arguments. -/
structure Splits (template : Text) (count : Nat) (parts : List Part) : Prop where
  fits : ∀ part ∈ parts, part.Fits count
  whole : template = parts.flatMap Part.written

def double (c : Char) : Text := if c = '\x7b' ∨ c = '\x7d' then [c, c] else [c]

theorem splits_nil (count : Nat) : Splits [] count [] :=
  ⟨by simp, rfl⟩

theorem splits_cons {count : Nat} (part : Part) {parts : List Part} {template : Text}
    (fits : part.Fits count) (rest : Splits template count parts) :
    Splits (part.written ++ template) count (part :: parts) where
  fits := by
    intro each member
    rcases List.mem_cons.mp member with rfl | member
    · exact fits
    · exact rest.fits each member
  whole := by rw [List.flatMap_cons, ← rest.whole]

theorem drop_closed (digits rest : Text) :
    (digits ++ '\x7d' :: rest).drop (digits.length + 1) = rest := by
  rw [← List.drop_drop, List.drop_left, List.drop_succ_cons, List.drop_zero]

theorem placeholder?_eq_some_iff (text : Text) (index size : Nat) :
    placeholder? text = some (index, size) ↔
      ∃ digits rest, text = digits ++ '\x7d' :: rest ∧ digits.isDigits = true ∧
        digits.length ≤ 9 ∧ index = Text.readDigits 10 digits ∧ size = digits.length + 1 := by
  rw [placeholder?]
  constructor
  · intro found
    split at found
    · rename_i enclosed
      cases found
      simp only [Bool.and_eq_true, decide_eq_true_eq] at enclosed
      obtain ⟨⟨positive, few⟩, closed⟩ := enclosed
      obtain ⟨rest, closed⟩ := List.head?_eq_some_iff.mp closed
      refine ⟨text.takeWhile Text.isAsciiDigit, rest, ?_, ?_, few, rfl, rfl⟩
      · have whole := List.take_append_drop (text.takeWhile Text.isAsciiDigit).length text
        rw [closed, Text.take_takeWhile] at whole
        exact whole.symm
      · exact Text.isDigits_takeWhile (Nat.ne_of_gt positive)
    · cases found
  · rintro ⟨digits, rest, rfl, number, few, rfl, rfl⟩
    obtain ⟨nonempty, all⟩ := (Text.isDigits_iff digits).mp number
    have taken : (digits ++ '\x7d' :: rest).takeWhile Text.isAsciiDigit = digits :=
      Text.takeWhile_stop all fun c first => by
        cases first
        rfl
    have least : 1 ≤ digits.length := List.length_pos_iff.mpr nonempty
    rw [taken, List.drop_left]
    simp [least, few]

section

variable {template : Text} {args : List Text}

theorem formatFrom_skip (skip : Nat) (rest : Text) :
    formatFrom template args skip rest = formatFrom template args 0 (rest.drop skip) := by
  induction rest generalizing skip with
  | nil => cases skip <;> rfl
  | cons c rest ih =>
      cases skip with
      | zero => rfl
      | succ skip => rw [formatFrom, ih, List.drop_succ_cons]

theorem formatFrom_part {part : Part} (fits : part.Fits args.length) (rest : Text) :
    formatFrom template args 0 (part.written ++ rest) =
      (do return part.filled args ++ (← formatFrom template args 0 rest)) := by
  cases part with
  | plain c =>
      obtain ⟨opens, closes⟩ := not_or.mp fits
      rw [Part.written, List.singleton_append, formatFrom, if_neg opens, if_neg closes]
      rfl
  | opening =>
      rw [Part.written, List.cons_append, List.singleton_append, formatFrom, if_pos rfl,
        List.head?_cons, if_pos rfl, formatFrom_skip]
      rfl
  | closing =>
      rw [Part.written, List.cons_append, List.singleton_append, formatFrom, if_neg (by decide),
        if_pos rfl, List.head?_cons, if_pos rfl, formatFrom_skip]
      rfl
  | argument digits =>
      obtain ⟨number, few, known⟩ := fits
      obtain ⟨c, more, shape⟩ := List.exists_cons_of_ne_nil ((Text.isDigits_iff digits).mp number).1
      have digit : Text.isAsciiDigit c = true :=
        ((Text.isDigits_iff digits).mp number).2 c (shape ▸ List.mem_cons_self)
      have single : (digits ++ '\x7d' :: rest).head? ≠ some '\x7b' := by
        rw [shape]
        simpa using Text.ne_of_isAsciiDigit digit rfl
      have found : placeholder? (digits ++ '\x7d' :: rest) =
          some (Text.readDigits 10 digits, digits.length + 1) :=
        (placeholder?_eq_some_iff ..).mpr ⟨digits, rest, rfl, number, few, rfl, rfl⟩
      rw [Part.written, List.cons_append, List.append_assoc, List.singleton_append, formatFrom,
        if_pos rfl, if_neg single, found]
      dsimp only
      rw [List.getElem?_eq_getElem known]
      dsimp only
      rw [formatFrom_skip, drop_closed, Part.filled, List.getD_eq_getElem?_getD,
        List.getElem?_eq_getElem known]
      rfl

theorem formatFrom_parts {parts : List Part} (fits : ∀ part ∈ parts, part.Fits args.length) :
    formatFrom template args 0 (parts.flatMap Part.written) =
      .ok (parts.flatMap (Part.filled args)) := by
  induction parts with
  | nil => rfl
  | cons part parts ih =>
      rw [List.flatMap_cons, formatFrom_part (fits part List.mem_cons_self),
        ih fun each member => fits each (List.mem_cons_of_mem _ member)]
      rfl

end

theorem splits_of_formatFrom {template : Text} {args : List Text} {skip : Nat} {rest text : Text}
    (done : formatFrom template args skip rest = .ok text) :
    ∃ parts, Splits (rest.drop skip) args.length parts ∧
      text = parts.flatMap (Part.filled args) := by
  fun_induction formatFrom template args skip rest generalizing text with
  | case1 =>
      cases done
      exact ⟨[], by simpa using splits_nil _, rfl⟩
  | case2 skip c rest ih => exact ih done
  | case3 rest doubled ih =>
      obtain ⟨filled, inner, same⟩ := (bind_eq_ok ..).mp done
      obtain ⟨parts, splits, rfl⟩ := ih inner
      obtain ⟨more, rfl⟩ := List.head?_eq_some_iff.mp doubled
      cases same
      exact ⟨.opening :: parts, splits_cons .opening trivial splits, rfl⟩
  | case4 rest single missing => cases done
  | case5 rest single index size found missing => cases done
  | case6 rest single index size found argument present ih =>
      obtain ⟨filled, inner, same⟩ := (bind_eq_ok ..).mp done
      obtain ⟨parts, splits, rfl⟩ := ih inner
      obtain ⟨digits, more, rfl, number, few, rfl, rfl⟩ := (placeholder?_eq_some_iff ..).mp found
      obtain ⟨known, value⟩ := List.getElem?_eq_some_iff.mp present
      rw [drop_closed] at splits
      cases same
      refine ⟨.argument digits :: parts, ?_, ?_⟩
      · have whole := splits_cons (.argument digits) ⟨number, few, known⟩ splits
        simpa [Part.written] using whole
      · simp [Part.filled, present]
  | case7 rest doubled closes ih =>
      obtain ⟨filled, inner, same⟩ := (bind_eq_ok ..).mp done
      obtain ⟨parts, splits, rfl⟩ := ih inner
      obtain ⟨more, rfl⟩ := List.head?_eq_some_iff.mp doubled
      cases same
      exact ⟨.closing :: parts, splits_cons .closing trivial splits, rfl⟩
  | case8 rest closes single => cases done
  | case9 c rest opens closes ih =>
      obtain ⟨filled, inner, same⟩ := (bind_eq_ok ..).mp done
      obtain ⟨parts, splits, rfl⟩ := ih inner
      cases same
      exact ⟨.plain c :: parts, splits_cons (.plain c) (not_or.mpr ⟨opens, closes⟩) splits, rfl⟩

theorem argument_ne_brace {digits rest rest' : Text} (number : digits.isDigits = true) :
    digits ++ '\x7d' :: rest ≠ '\x7b' :: rest' := by
  obtain ⟨nonempty, all⟩ := (Text.isDigits_iff digits).mp number
  obtain ⟨c, more, rfl⟩ := List.exists_cons_of_ne_nil nonempty
  intro same
  cases same
  have digit := all '\x7b' List.mem_cons_self
  cases digit

theorem eq_plain_of_written {c : Char} (bare : ¬IsBrace c) {part : Part} {rest rest' : Text}
    (same : c :: rest = part.written ++ rest') : part = .plain c ∧ rest = rest' := by
  cases part with
  | plain =>
      cases same
      exact ⟨rfl, rfl⟩
  | opening | argument =>
      cases same
      exact absurd (.inl rfl) bare
  | closing =>
      cases same
      exact absurd (.inr rfl) bare

theorem written_append_inj {count : Nat} {part part' : Part} {rest rest' : Text}
    (fits : part.Fits count) (fits' : part'.Fits count)
    (same : part.written ++ rest = part'.written ++ rest') : part = part' ∧ rest = rest' := by
  cases part with
  | plain c =>
      obtain ⟨rfl, rfl⟩ := eq_plain_of_written fits same
      exact ⟨rfl, rfl⟩
  | opening =>
      cases part' with
      | plain => exact nomatch (eq_plain_of_written fits' same.symm).1
      | opening =>
          cases same
          exact ⟨rfl, rfl⟩
      | closing => cases same
      | argument digits =>
          simp only [Part.written, List.cons_append, List.nil_append, List.append_assoc,
            List.cons.injEq, true_and] at same
          exact absurd same.symm (argument_ne_brace fits'.1)
  | closing =>
      cases part' with
      | plain => exact nomatch (eq_plain_of_written fits' same.symm).1
      | closing =>
          cases same
          exact ⟨rfl, rfl⟩
      | opening | argument => cases same
  | argument digits =>
      cases part' with
      | plain => exact nomatch (eq_plain_of_written fits' same.symm).1
      | closing => cases same
      | opening =>
          simp only [Part.written, List.cons_append, List.nil_append, List.append_assoc,
            List.cons.injEq, true_and] at same
          exact absurd same (argument_ne_brace fits.1)
      | argument digits' =>
          simp only [Part.written, List.cons_append, List.nil_append, List.append_assoc,
            List.cons.injEq, true_and] at same
          -- Both numbers are what is read in front of the closing brace.
          have read := (placeholder?_eq_some_iff ..).mpr
            ⟨digits, rest, rfl, fits.1, fits.2.1, rfl, rfl⟩
          have read' := (placeholder?_eq_some_iff ..).mpr
            ⟨digits', rest', rfl, fits'.1, fits'.2.1, rfl, rfl⟩
          rw [same, read'] at read
          have sizes : digits'.length = digits.length := by
            simp only [Option.some.injEq, Prod.mk.injEq] at read
            omega
          obtain ⟨rfl, tails⟩ := List.append_inj same sizes.symm
          cases tails
          exact ⟨rfl, rfl⟩

theorem splits_unique {template : Text} {count : Nat} {parts parts' : List Part}
    (splits : Splits template count parts) (splits' : Splits template count parts') :
    parts = parts' := by
  have same : parts.flatMap Part.written = parts'.flatMap Part.written :=
    splits.whole.symm.trans splits'.whole
  have fits := splits.fits
  have fits' := splits'.fits
  clear splits splits'
  have written_ne_nil (part : Part) (rest : Text) : part.written ++ rest ≠ [] := by
    cases part <;> simp [Part.written]
  induction parts generalizing parts' with
  | nil =>
      cases parts' with
      | nil => rfl
      | cons part parts' => exact absurd same.symm (written_ne_nil part _)
  | cons part parts ih =>
      cases parts' with
      | nil => exact absurd same (written_ne_nil part _)
      | cons part' parts' =>
          rw [List.flatMap_cons, List.flatMap_cons] at same
          obtain ⟨rfl, others⟩ := written_append_inj (fits part List.mem_cons_self)
            (fits' part' List.mem_cons_self) same
          rw [ih others (fun each member => fits each (List.mem_cons_of_mem _ member))
            fun each member => fits' each (List.mem_cons_of_mem _ member)]

def literal (c : Char) : Part :=
  if c = '\x7b' then .opening else if c = '\x7d' then .closing else .plain c

theorem literal_spec (count : Nat) (args : List Text) (c : Char) :
    (literal c).Fits count ∧ (literal c).written = double c ∧ (literal c).filled args = [c] := by
  rw [literal]
  split
  · rename_i opens
    subst opens
    exact ⟨trivial, rfl, rfl⟩
  · rename_i opens
    split
    · rename_i closes
      subst closes
      exact ⟨trivial, rfl, rfl⟩
    · rename_i closes
      have bare : ¬(c = '\x7b' ∨ c = '\x7d') := not_or.mpr ⟨opens, closes⟩
      exact ⟨bare, (if_neg bare).symm, rfl⟩

theorem splits_doubled (count : Nat) (text : Text) :
    Splits (text.flatMap double) count (text.map literal) where
  fits := by
    intro part member
    obtain ⟨c, -, rfl⟩ := List.mem_map.mp member
    exact (literal_spec count [] c).1
  whole := by
    rw [List.flatMap_map]
    exact congrArg text.flatMap (funext fun c => (literal_spec count [] c).2.1.symm)

theorem filled_literal (args : List Text) (text : Text) :
    (text.map literal).flatMap (Part.filled args) = text := by
  induction text with
  | nil => rfl
  | cons c text ih =>
      rw [List.map_cons, List.flatMap_cons, ih, (literal_spec 0 args c).2.2]
      rfl

theorem apply_of_splits {template : Text} {args : List Value} {parts : List Part}
    (splits : Splits template args.length parts) :
    Function.format.apply (.str template :: args) =
      .ok (.str (parts.flatMap (Part.filled (args.map Value.toText)))) := by
  have fits : ∀ part ∈ parts, part.Fits (args.map Value.toText).length := by
    rw [List.length_map]
    exact splits.fits
  have filled : Flowfile.format template (args.map Value.toText) =
      .ok (parts.flatMap (Part.filled (args.map Value.toText))) := by
    rw [Flowfile.format]
    conv => lhs; rw [splits.whole]
    exact formatFrom_parts fits
  exact congrArg (fun outcome => (do return Value.str (← outcome) : Except EvalError Value)) filled

theorem splits_of_apply {template : Text} {args : List Value} {result : Value}
    (done : Function.format.apply (.str template :: args) = .ok result) :
    ∃ parts, Splits template args.length parts ∧
      result = .str (parts.flatMap (Part.filled (args.map Value.toText))) := by
  obtain ⟨text, filled, same⟩ := (bind_eq_ok ..).mp done
  obtain ⟨parts, splits, rfl⟩ := splits_of_formatFrom filled
  rw [List.length_map] at splits
  cases same
  exact ⟨parts, splits, rfl⟩

/-- A template is filled just when it has parts. The result is made of what the parts stand for, and
a template without them is an error of the expression. Doubled braces stand for single ones. -/
theorem apply_format_iff (template : Text) (args : List Value) :
    let outcome := Function.format.apply (.str template :: args)
    (∀ result, outcome = .ok result ↔ ∃ parts, Splits template args.length parts ∧
      result = .str (parts.flatMap (Part.filled (args.map Value.toText)))) ∧
    (∀ parts parts', Splits template args.length parts → Splits template args.length parts' →
      parts = parts') ∧
    ((∃ error, outcome = .error (.expression error)) ↔
      ¬∃ parts, Splits template args.length parts) ∧
    Function.format.apply (.str (template.flatMap double) :: args) = .ok (.str template) := by
  intro outcome
  refine ⟨fun result => ⟨splits_of_apply, ?_⟩, fun _ _ => splits_unique, ⟨?_, fun apart => ?_⟩, ?_⟩
  · rintro ⟨parts, splits, rfl⟩
    exact apply_of_splits splits
  · rintro ⟨error, failed⟩ ⟨parts, splits⟩
    cases failed.symm.trans (apply_of_splits splits)
  · rcases known : outcome with error | result
    · rcases (bind_eq_error ..).mp known with inner | ⟨text, -, done⟩
      · obtain ⟨message, rfl⟩ := formatFrom_eq_error _ _ _ _ error inner
        exact ⟨_, rfl⟩
      · cases done
    · obtain ⟨parts, splits, -⟩ := splits_of_apply known
      exact absurd ⟨parts, splits⟩ apart
  · rw [apply_of_splits (splits_doubled args.length template), filled_literal]

/-- Three braces in a row, and an argument that looks like a template. -/
theorem apply_format_iff_braces :
    let parts := [Part.opening, .argument ['0'], .closing]
    let args : List Value := [.text "\x7b1\x7d"]
    Splits (Text.of "\x7b\x7b\x7b0\x7d\x7d\x7d") 1 parts ∧
      Function.format.apply (.text "\x7b\x7b\x7b0\x7d\x7d\x7d" :: args) =
        .ok (.text "\x7b\x7b1\x7d\x7d") := by
  intro parts args
  have splits : Splits (Text.of "\x7b\x7b\x7b0\x7d\x7d\x7d") 1 parts := by
    refine ⟨?_, by decide⟩
    intro part member
    simp only [parts, List.mem_cons, List.not_mem_nil, or_false] at member
    rcases member with rfl | rfl | rfl
    · trivial
    · exact ⟨rfl, by decide, by decide⟩
    · trivial
  exact ⟨splits, ((apply_format_iff _ args).1 _).mpr ⟨parts, splits, rfl⟩⟩

end Flowfile.Format
