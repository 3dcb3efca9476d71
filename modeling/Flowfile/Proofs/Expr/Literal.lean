import Flowfile.Expr.Eval
import Flowfile.Proofs.Expr.Printing
import Flowfile.Proofs.Value.Order

/-! Numbers beside their own texts.

A number in an expression and the same characters as a text are equal, except for a hexadecimal
number with a sign: the conversion of texts knows none. -/

namespace Flowfile

namespace Double

theorem eq_of_place {d e : Double} (number : d.isNan = false) (same : d.place = e.place) :
    d.eq e = true := by
  obtain ⟨x, placed⟩ := place_isSome number
  exact (eq_iff placed (same ▸ placed)).mpr rfl

theorem ofRatio_number (negative : Bool) (num den : Nat) :
    (ofRatio negative num den).isNan = false := by
  rw [ofRatio]
  dsimp only
  split
  · rfl
  · split <;> rfl

theorem ofDecimal_number (negative : Bool) (digits : Nat) (power : Int) :
    (ofDecimal negative digits power).isNan = false := by
  rw [ofDecimal]
  repeat' split
  all_goals first
    | rfl
    | exact ofRatio_number _ _ _

theorem place_ofInt_signed (negative : Bool) (n : Nat) :
    (ofInt (signed negative n)).place = (ofRatio negative n 1).place := by
  by_cases nothing : n = 0
  · subst nothing
    cases negative <;> rfl
  · rw [ofInt_signed negative nothing]

end Double

namespace Token

open Text

theorem unsignedValue_hexadecimal {digits : Text} (nonempty : digits ≠ [])
    (all : ∀ c ∈ digits, isHexDigit c = true) (negative : Bool) :
    unsignedValue negative ('0' :: 'x' :: digits) =
      .int (Double.signed negative (readDigits 16 digits)) := by
  have length := hexLiteralLength_append ends_nil nonempty all
  rw [List.append_nil] at length
  rw [unsignedValue, if_pos (by omega)]
  rfl

theorem place_unsignedValue {text : Text} (form : IsDecimal text) (negative : Bool) :
    (unsignedValue negative text).toDouble.place =
      ((Decimal.ofLiteral text).toDouble negative).place := by
  have hexadecimal := hexLiteralLength_decimal ends_nil form
  rw [List.append_nil] at hexadecimal
  rw [unsignedValue, if_neg (by simp [hexadecimal])]
  split
  · rename_i integer
    rw [Bool.and_eq_true] at integer
    rw [Decimal.ofLiteral_digits integer.1]
    exact Double.place_ofInt_signed negative _
  · rfl

theorem toNumber?_numeral {text : Text} (form : IsNumeral text) :
    (toNumber? text = none ∧ (Text.of "-0x").isPrefixOf text = true) ∨
      ((Text.of "-0x").isPrefixOf text = false ∧
        ∃ d, toNumber? text = some d ∧ (numberValue text).toDouble.eq d = true) := by
  cases form with
  | unsigned form =>
      have value : numberValue text = unsignedValue false text :=
        numberValue.eq_2 _ fun rest same => form.noSign rest same
      have unsigned : (Text.of "-0x").isPrefixOf text = false := by
        obtain ⟨c, rest, rfl, -⟩ := form.head
        rw [← Bool.not_eq_true, List.isPrefixOf_iff_prefix]
        intro leads
        exact form.noSign rest ((List.cons_prefix_cons.mp leads).1 ▸ rfl)
      refine .inr ⟨unsigned, ?_⟩
      cases form with
      | hexadecimal nonempty all =>
          refine ⟨_, toNumber?_hexadecimal nonempty all, ?_⟩
          rw [value, unsignedValue_hexadecimal nonempty all]
          exact Double.eq_of_place (Double.ofRatio_number _ _ _) rfl
      | decimal form =>
          refine ⟨_, toNumber?_decimal form, ?_⟩
          rw [value, Double.eq_comm]
          exact Double.eq_of_place (Double.ofDecimal_number _ _ _)
            (place_unsignedValue form false).symm
  | @negative text form =>
      cases form with
      | hexadecimal nonempty all => exact .inl ⟨toNumber?_signed_hexadecimal nonempty all, rfl⟩
      | decimal form =>
          have unmarked : (Text.of "-0x").isPrefixOf ('-' :: text) = false := by
            rw [← Bool.not_eq_true, List.isPrefixOf_iff_prefix]
            intro leads
            have inner : ['0', 'x'] <+: text := (List.cons_prefix_cons.mp leads).2
            exact form.noMark (inner.subset (by simp))
          refine .inr ⟨unmarked, _, toNumber?_signed (.inl rfl) form, ?_⟩
          rw [numberValue, Double.eq_comm]
          exact Double.eq_of_place (Double.ofDecimal_number _ _ _)
            (place_unsignedValue form true).symm

theorem looseEq_numeral {text : Text} (form : IsNumeral text) :
    Value.looseEq (.number (numberValue text)) (.str text) =
      !(Text.of "-0x").isPrefixOf text := by
  have numeric : Value.looseEq (.number (numberValue text)) (.str text) =
      (numberValue text).toDouble.eq ((toNumber? text).getD .nan) := rfl
  rw [numeric]
  rcases toNumber?_numeral form with ⟨rejected, signed⟩ | ⟨unsigned, d, found, same⟩
  · rw [rejected, signed]
    cases (numberValue text).toDouble <;> rfl
  · rw [unsigned, found]
    exact same

end Token

namespace Grammar

open Token

theorem parse_comparison {text : Text} (form : IsNumeral text) (other : Text) :
    Expr.parse (text ++ (Text.of " == " ++ quoted other)) =
      .ok (.binary .eq (.literal (.number (numberValue text))) (.literal (.str other))) := by
  have space (before : Option Lexeme) : Reads Anything before [' '] [] before :=
    reads_blanks (by simp [Text.isBlank])
  have symbol (before : Option Lexeme) : Reads Anything before ['=', '='] [.symbol .eq] _ :=
    reads_lexeme rfl (fun _ _ => rfl) fun _ => rfl
  have right := reads_append (space (some (.operator .eq))) (reads_string other)
    fun _ _ => trivial
  have middle := reads_append (symbol (some (.number (numberValue text)))) right
    fun _ _ => trivial
  have comparison := reads_append (space _) middle fun _ _ => trivial
  have number : Reads Text.Ends none text [.number (numberValue text)] _ :=
    reads_numeral rfl form
  have whole := reads_append number comparison fun rest _ => by
    apply Text.ends_blank
    intro c first
    cases first
    rfl
  obtain ⟨phrase, words, expr⟩ :=
    Expr.exists_binary .eq (.number (numberValue text)) (.string other)
  have read : Reads _ none (text ++ (Text.of " == " ++ quoted other)) phrase.words _ :=
    words ▸ whole
  rw [Expr.parse_of_reads phrase read next_nil, expr]
  rfl

theorem evaluate_comparison (resolve : Resolver) {text : Text} (form : IsNumeral text) :
    Expr.evaluateSource resolve (text ++ (Text.of " == '" ++ (text ++ ['\'']))) =
      .pure (.bool (!(Text.of "-0x").isPrefixOf text)) := by
  have same : Text.of " == '" ++ (text ++ ['\'']) = Text.of " == " ++ quoted text := by
    rw [quoted, doubled_bare form.bare]
    rfl
  rw [same, Expr.evaluateSource, parse_comparison form text, ← looseEq_numeral form]
  rfl

theorem readAll_numeral {text : Text} (form : IsNumeral (Text.strip text)) :
    ∃ start stop, Token.readAll text =
      .ok [⟨.number (numberValue (Text.strip text)), Text.strip text, start⟩,
        ⟨.finish, [], stop⟩] := by
  obtain ⟨front, back, whole, before, after⟩ := Text.exists_of_strip text
  obtain ⟨c, body, shape, -⟩ := form.head
  rw [shape] at whole form ⊢
  have ends : Text.Ends back := Text.ends_blank fun c first => after c (List.mem_of_mem_head? first)
  have lexed : readLexeme ((none : Option Lexeme).all Lexeme.opensOperand) c (body ++ back) =
      .ok (.number (numberValue (c :: body)), body.length + 1) :=
    readLexeme_numeral form ends
  have read := readFrom_lexeme (form.solid c List.mem_cons_self) lexed (0 + front.length)
  have last (position : Nat) (lexeme : Option Lexeme) :
      readFrom position lexeme 0 back = .ok [⟨.finish, [], position + back.length⟩] := by
    calc readFrom position lexeme 0 back
        = readFrom position lexeme 0 (back ++ []) := by rw [List.append_nil]
      _ = readFrom (position + back.length) lexeme 0 [] := readFrom_blanks after position []
      _ = .ok [⟨.finish, [], position + back.length⟩] := rfl
  refine ⟨0 + front.length, 0 + front.length + (c :: body).length + back.length, ?_⟩
  rw [Token.readAll, whole, readFrom_blanks before, List.cons_append, read, last]
  rfl

/-- A number that is read anywhere equals its own text unless it is hexadecimal with a sign, and
what converts to a number is read as one unless it is blank or has a plus sign. -/
theorem evaluate_numeral (resolve : Resolver) (source : Text) :
    (∀ tokens value text start, Token.readAll source = .ok tokens →
      ⟨.number value, text, start⟩ ∈ tokens →
        Expr.evaluateSource resolve (text ++ (Text.of " == '" ++ (text ++ ['\'']))) =
          .pure (.bool (!(Text.of "-0x").isPrefixOf text)) ∧
        (text.toNumber? = none ↔ (Text.of "-0x").isPrefixOf text = true) ∧
        ∀ d, text.toNumber? = some d → value.toDouble.eq d = true) ∧
    ∀ d, source.toNumber? = some d →
      Text.strip source = [] ∨ (∃ body, Text.strip source = '+' :: body) ∨
        ∃ value start stop, Token.readAll source =
          .ok [⟨.number value, Text.strip source, start⟩, ⟨.finish, [], stop⟩] := by
  constructor
  · intro tokens value text start read member
    obtain ⟨form, known⟩ : IsNumeral text ∧ value = numberValue text :=
      numerals_of_readFrom read _ member rfl
    subst known
    refine ⟨evaluate_comparison resolve form, ?_⟩
    rcases toNumber?_numeral form with ⟨rejected, signed⟩ | ⟨unsigned, d, found, same⟩
    · simp [rejected, signed]
    · simp [found, unsigned, same]
  · intro d number
    have numeral (form : IsNumeral (Text.strip source)) :
        ∃ value start stop, Token.readAll source =
          .ok [⟨.number value, Text.strip source, start⟩, ⟨.finish, [], stop⟩] :=
      ⟨_, readAll_numeral form⟩
    rcases Text.toNumber?_form number with blank | form | ⟨sign, body, shape, rfl | rfl, form⟩
    · exact .inl blank
    · exact .inr (.inr (numeral (.unsigned form)))
    · exact .inr (.inr (numeral (shape ▸ .negative (.decimal form))))
    · exact .inr (.inl ⟨body, shape⟩)

/-- A sign and zeros in front. -/
theorem evaluate_numeral_zeros :
    let resolve : Resolver := fun _ => .ok .undefined
    let tokens : List Token := [⟨.number (.int (-7)), Text.of "-007", 1⟩, ⟨.finish, [], 6⟩]
    Token.readAll (Text.of " -007 ") = .ok tokens ∧
      Expr.evaluateSource resolve (Text.of "-007 == '-007'") = .pure (.bool true) := by
  intro resolve tokens
  have read : Token.readAll (Text.of " -007 ") = .ok tokens := by rfl
  exact ⟨read, ((evaluate_numeral resolve _).1 _ _ _ _ read List.mem_cons_self).1⟩

/-- The tokenizer reads a sign before hexadecimal digits, the conversion of the text does not. -/
theorem signed_hexadecimal_differs :
    let resolve : Resolver := fun _ => .ok .undefined
    Token.readAll (Text.of "-0x10") =
        .ok [⟨.number (.int (-16)), Text.of "-0x10", 0⟩, ⟨.finish, [], 5⟩] ∧
      Expr.evaluateSource resolve (Text.of "-0x10 == '-0x10'") = .pure (.bool false) := by
  intro resolve
  have digits : ∀ c ∈ ['1', '0'], Text.isHexDigit c = true := List.all_eq_true.mp rfl
  have form : IsNumeral (Text.of "-0x10") := .negative (.hexadecimal (by simp) digits)
  have known := evaluate_comparison resolve form
  exact ⟨rfl, known⟩

end Grammar

end Flowfile
