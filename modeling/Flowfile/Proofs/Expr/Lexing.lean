import Flowfile.Proofs.Expr.Grammar
import Flowfile.Proofs.Expr.Numeral

/-! How a text is read as the words that were written in it.

A text that is fit for what follows it is read as its words, wherever it stands. -/

namespace Flowfile

namespace Grammar

open Token

theorem readFrom_skip (position : Nat) (before : Option Lexeme) (passed rest : Text) :
    readFrom position before passed.length (passed ++ rest) =
      readFrom (position + passed.length) before 0 rest := by
  induction passed generalizing position with
  | nil => rfl
  | cons c passed ih =>
      rw [List.length_cons, List.cons_append, readFrom, ih, Nat.add_assoc,
        Nat.add_comm 1 passed.length]

/-- After the lexeme before it, the text is read as the words, whatever follows, as long as it is
fit to follow. -/
def Reads (fit : Text → Prop) (before : Option Lexeme) (text : Text) (words : List Word)
    (after : Option Lexeme) : Prop :=
  ∀ position rest, fit rest → ∃ tokens : List Token, tokens.map word? = words.map some ∧
    readFrom position before 0 (text ++ rest) =
      (readFrom (position + text.length) after 0 rest).map (fun later => tokens ++ later)

def Ahead (kind : Char → Prop) (text : Text) : Prop := ∃ c rest, text = c :: rest ∧ kind c

def Next (kind : Char → Prop) (text : Text) : Prop := ∀ c, text.head? = some c → kind c

theorem next_nil {kind : Char → Prop} : Next kind [] := by
  intro c first
  cases first

def Anything (_ : Text) : Prop := True

section

variable {fit fit' : Text → Prop} {before middle after : Option Lexeme} {text text' : Text}
  {words words' : List Word}

theorem reads_append (first : Reads fit before text words middle)
    (second : Reads fit' middle text' words' after)
    (joins : ∀ rest, fit' rest → fit (text' ++ rest)) :
    Reads fit' before (text ++ text') (words ++ words') after := by
  intro position rest follows
  obtain ⟨tokens, spelled, read⟩ := first position (text' ++ rest) (joins rest follows)
  obtain ⟨tokens', spelled', read'⟩ := second (position + text.length) rest follows
  refine ⟨tokens ++ tokens', by simp [spelled, spelled'], ?_⟩
  rw [List.append_assoc, read, read', List.length_append, ← Nat.add_assoc]
  cases readFrom (position + text.length + text'.length) after 0 rest with
  | error problem => rfl
  | ok later => simp [Except.map]

theorem readFrom_lexeme {c : Char} {rest : Text} {lexeme : Lexeme} (solid : Text.isBlank c = false)
    (lexed : readLexeme (before.all Lexeme.opensOperand) c (text ++ rest) =
      .ok (lexeme, text.length + 1)) (position : Nat) :
    readFrom position before 0 (c :: (text ++ rest)) =
      (readFrom (position + (c :: text).length) (some lexeme) 0 rest).map
        (fun later => ⟨lexeme, c :: text, position⟩ :: later) := by
  have whole : (c :: (text ++ rest)).take (text.length + 1) = c :: text := by simp
  have skipped : readFrom (position + 1) (some lexeme) text.length (text ++ rest) =
      readFrom (position + (c :: text).length) (some lexeme) 0 rest := by
    rw [readFrom_skip, List.length_cons, Nat.add_right_comm, Nat.add_assoc]
  rw [readFrom.eq_def]
  cases before with
  | none =>
      rw [Option.all_none] at lexed
      simp only [solid, Bool.false_eq_true, if_false, lexed, whole, Nat.add_sub_cancel, skipped]
      cases readFrom (position + (c :: text).length) (some lexeme) 0 rest <;> rfl
  | some previous =>
      rw [Option.all_some] at lexed
      simp only [solid, Bool.false_eq_true, if_false, lexed, whole, Nat.add_sub_cancel, skipped]
      cases readFrom (position + (c :: text).length) (some lexeme) 0 rest <;> rfl

theorem reads_lexeme {c : Char} {lexeme : Lexeme} {word : Word} (solid : Text.isBlank c = false)
    (lexed : ∀ rest, fit rest → readLexeme (before.all Lexeme.opensOperand) c (text ++ rest) =
      .ok (lexeme, text.length + 1))
    (spelled : ∀ position, word? ⟨lexeme, c :: text, position⟩ = some word) :
    Reads fit before (c :: text) [word] (some lexeme) := by
  intro position rest follows
  exact ⟨[⟨lexeme, c :: text, position⟩], by simp [spelled],
    readFrom_lexeme solid (lexed rest follows) position⟩

theorem readFrom_blanks {blanks : Text} (blank : ∀ c ∈ blanks, Text.isBlank c = true)
    (position : Nat) (rest : Text) :
    readFrom position before 0 (blanks ++ rest) =
      readFrom (position + blanks.length) before 0 rest := by
  induction blanks generalizing position with
  | nil => rfl
  | cons c blanks ih =>
      rw [List.forall_mem_cons] at blank
      have passed : readFrom position before 0 (c :: (blanks ++ rest)) =
          readFrom (position + 1) before 0 (blanks ++ rest) := by
        rw [readFrom.eq_def]
        simp only [blank.1, if_true]
      rw [List.cons_append, passed, ih blank.2, List.length_cons, Nat.add_right_comm,
        Nat.add_assoc]

theorem reads_blanks {blanks : Text} (blank : ∀ c ∈ blanks, Text.isBlank c = true) :
    Reads Anything before blanks [] before := by
  intro position rest _
  refine ⟨[], rfl, ?_⟩
  rw [readFrom_blanks blank]
  cases readFrom (position + blanks.length) before 0 rest <;> rfl

theorem reads_bracket {symbol : Symbol}
    (bracket : symbol ∈ [.openParen, .closeParen, .openBracket, .closeBracket, Symbol.comma]) :
    Reads Anything before symbol.text [.symbol symbol] (some (.operator symbol)) := by
  cases symbol with
  | openParen | closeParen | openBracket | closeBracket | comma =>
      exact reads_lexeme rfl (fun rest _ => rfl) (fun position => rfl)
  | _ => exact absurd bracket (by decide)

/-- An operator is not taken for a longer one where a parenthesis follows. -/
theorem reads_operator {symbol : Symbol} (other : symbol ≠ .dot) :
    Reads (Ahead (· = '(')) before symbol.text [.symbol symbol] (some (.operator symbol)) := by
  cases symbol with
  | dot => exact absurd rfl other
  | _ =>
      refine reads_lexeme rfl ?_ (fun position => rfl)
      intro rest follows
      obtain ⟨c, more, rfl, rfl⟩ := follows
      rfl

theorem reads_dot : Reads Anything (some (.operator .closeParen)) ['.'] [.symbol .dot]
    (some (.operator .dot)) :=
  reads_lexeme rfl (fun _ _ => rfl) (fun _ => rfl)

end

/-- A letter or underscore, then letters, digits, underscores and dashes. -/
def IsIdentifier (name : Text) : Prop :=
  ∃ c rest, name = c :: rest ∧ isIdentifierStart c = true ∧ ∀ d ∈ rest, isIdentifierPart d = true

theorem isIdentifier_of_all {name : Text} (start : name.head?.any isIdentifierStart = true)
    (parts : name.all isIdentifierPart = true) : IsIdentifier name := by
  cases name with
  | nil => cases start
  | cons c rest =>
      rw [List.all_cons, Bool.and_eq_true] at parts
      exact ⟨c, rest, rfl, start, List.all_eq_true.mp parts.2⟩

theorem toNat_of_isIdentifierStart {c : Char} (start : isIdentifierStart c = true) :
    65 ≤ c.toNat ∧ c.toNat ≤ 122 := by
  simp only [isIdentifierStart, Text.isAsciiLetter, Bool.or_eq_true, Bool.and_eq_true,
    decide_eq_true_eq] at start
  rcases start with (⟨low, high⟩ | ⟨low, high⟩) | rfl
  · have small := Text.toNat_bounds low high
    simp at small
    omega
  · have big := Text.toNat_bounds low high
    simp at big
    omega
  · decide

theorem isIdentifierStart_apart {c : Char} (start : isIdentifierStart c = true) :
    Text.isBlank c = false ∧ Text.isAsciiDigit c = false ∧ c ≠ '\'' ∧ c ≠ '-' ∧ c ≠ '.' := by
  obtain ⟨low, high⟩ := toNat_of_isIdentifierStart start
  have blank : Text.isBlank c = false := by
    simp only [Text.isBlank]
    simp
    omega
  have digit : Text.isAsciiDigit c = false := by
    rw [Text.isAsciiDigit, Bool.and_eq_false_iff]
    refine .inr (decide_eq_false ?_)
    intro small
    have bound : c.toNat ≤ 57 := UInt32.le_iff_toNat_le.mp small
    omega
  refine ⟨blank, digit, ?_, ?_, ?_⟩
  all_goals
    rintro rfl
    revert low
    decide

theorem isIdentifierPart_apart {c : Char} (part : isIdentifierPart c = true) :
    Text.isBlank c = false ∧ c ≠ '.' := by
  rw [isIdentifierPart, Bool.or_eq_true, Bool.or_eq_true, decide_eq_true_eq] at part
  rcases part with (start | digit) | rfl
  · obtain ⟨solid, -, -, -, dot⟩ := isIdentifierStart_apart start
    exact ⟨solid, dot⟩
  · exact ⟨Text.isBlank_of_isHexDigit (Text.isHexDigit_of_isAsciiDigit digit),
      Text.ne_of_isAsciiDigit digit rfl⟩
  · exact ⟨rfl, by decide⟩

theorem reads_name {before : Option Lexeme} {name : Text} (identifier : IsIdentifier name) :
    Reads (Ahead fun c => isIdentifierPart c = false) before name [.name name]
      (some .identifier) := by
  obtain ⟨c, rest, rfl, start, parts⟩ := identifier
  obtain ⟨solid, digit, quote, dash, dot⟩ := isIdentifierStart_apart start
  refine reads_lexeme solid ?_ (fun _ => rfl)
  intro after follows
  obtain ⟨d, more, rfl, stops⟩ := follows
  have all : ∀ part ∈ c :: rest, isIdentifierPart part = true := by
    intro part member
    rcases List.mem_cons.mp member with rfl | later
    · simp [isIdentifierPart, start]
    · exact parts part later
  have taken : (c :: (rest ++ d :: more)).takeWhile isIdentifierPart = c :: rest :=
    Text.takeWhile_stop all fun _ first => by
      cases first
      exact stops
  rw [readLexeme]
  simp [quote, digit, dash, dot, start, taken]

def doubled (text : Text) : Text := text.flatMap fun c => if c = '\'' then [c, c] else [c]

def quoted (text : Text) : Text := '\'' :: (doubled text ++ ['\''])

@[simp]
theorem doubled_nil : doubled [] = [] := by
  rfl

@[simp]
theorem doubled_quote (text : Text) : doubled ('\'' :: text) = '\'' :: '\'' :: doubled text := by
  rfl

theorem doubled_cons {c : Char} (other : c ≠ '\'') (text : Text) :
    doubled (c :: text) = c :: doubled text := by
  simp [doubled, other]

theorem doubled_bare {text : Text} (bare : '\'' ∉ text) : doubled text = text := by
  induction text with
  | nil => rfl
  | cons c text ih =>
      rw [List.mem_cons, not_or] at bare
      rw [doubled_cons (Ne.symm bare.1), ih bare.2]

theorem readQuoted?_doubled (text : Text) {rest : Text} (apart : Next (· ≠ '\'') rest) :
    readQuoted? (doubled text ++ '\'' :: rest) = some (text, (doubled text).length + 1) := by
  induction text with
  | nil =>
      cases rest with
      | nil => rfl
      | cons c more => simp [readQuoted?, apart c rfl]
  | cons c text ih =>
      by_cases quote : c = '\''
      · subst quote
        simp [readQuoted?, ih]
      · rw [doubled_cons quote, List.cons_append, readQuoted?.eq_4 _ _ (by simp [quote]) quote]
        simp [ih]

theorem reads_string {before : Option Lexeme} (text : Text) :
    Reads (Next (· ≠ '\'')) before (quoted text) [.string text] (some (.string text)) := by
  refine reads_lexeme rfl ?_ (fun _ => rfl)
  intro rest apart
  rw [List.append_assoc, List.singleton_append, readLexeme]
  simp [readQuoted?_doubled text apart]

theorem readLexeme_numeral {c : Char} {text rest : Text} (form : IsNumeral (c :: text))
    (ends : Text.Ends rest) :
    readLexeme true c (text ++ rest) =
      .ok (.number (numberValue (c :: text)), text.length + 1) := by
  obtain ⟨_, _, shape, starts⟩ := form.head
  cases shape
  have quote : c ≠ '\'' := by
    rcases starts with digit | rfl | rfl
    · exact Text.ne_of_isAsciiDigit digit rfl
    all_goals decide
  have length : numberLength (c :: (text ++ rest)) = text.length + 1 :=
    numberLength_append ends form
  have whole : (c :: (text ++ rest)).take (text.length + 1) = c :: text := by simp
  have opens : (Text.isAsciiDigit c || ((c = '-' || c = '.') && true)) = true := by
    rcases starts with digit | rfl | rfl
    · simp [digit]
    all_goals rfl
  rw [readLexeme]
  simp only [quote, if_false, opens, if_true, length, whole]
  simp

theorem reads_numeral {before : Option Lexeme} (operand : before.all Lexeme.opensOperand = true)
    {text : Text} (form : IsNumeral text) :
    Reads Text.Ends before text [.number (numberValue text)]
      (some (.number (numberValue text))) := by
  obtain ⟨c, text, rfl, -⟩ := form.head
  refine reads_lexeme (form.solid c List.mem_cons_self) (fun rest ends => ?_) fun _ => rfl
  rw [operand, readLexeme_numeral form ends]

theorem unsignedValue_digits {digits : Text} (decimal : digits.isDigits = true) (negative : Bool)
    (few : digits.length ≤ digitLimit) :
    unsignedValue negative digits = .int (if negative then -(Text.readDigits 10 digits : Int)
      else Text.readDigits 10 digits) := by
  have hexadecimal := hexLiteralLength_decimal Text.ends_nil (Text.isDecimal_of_isDigits decimal)
  rw [List.append_nil] at hexadecimal
  rw [unsignedValue, if_neg (by simp [hexadecimal]), if_pos (by simp [decimal, few])]

theorem reads_int {before : Option Lexeme} (operand : before.all Lexeme.opensOperand = true)
    {i : Int} (few : (Nat.toDigits 10 i.natAbs).length ≤ digitLimit) :
    Reads Text.Ends before (Text.ofInt i) [.number (.int i)] (some (.number (.int i))) := by
  have form (n : Nat) : IsUnsigned (Text.ofNat n) :=
    .decimal (Text.isDecimal_of_isDigits (Text.isDigits_ofNat n))
  have number : IsNumeral (Text.ofInt i) ∧ numberValue (Text.ofInt i) = .int i := by
    cases i with
    | ofNat n =>
        have value := unsignedValue_digits (Text.isDigits_ofNat n) false few
        rw [Text.ofNat, Text.readDigits_toDigits (by decide) (by decide)] at value
        refine ⟨.unsigned (form n), ?_⟩
        rw [Text.ofInt, numberValue.eq_2 _ fun rest same => (form n).noSign rest same]
        exact value
    | negSucc n =>
        have value := unsignedValue_digits (Text.isDigits_ofNat (n + 1)) true few
        rw [Text.ofNat, Text.readDigits_toDigits (by decide) (by decide)] at value
        exact ⟨.negative (form (n + 1)), value⟩
  have reads := reads_numeral operand number.1
  rwa [number.2] at reads

def numericLength (operandExpected : Bool) (c : Char) (rest : Text) : Nat :=
  if Text.isAsciiDigit c || ((c = '-' || c = '.') && operandExpected) then numberLength (c :: rest)
  else 0

/-- What a lexeme can be, with what it was not taken for before. -/
inductive LexemeAt (operandExpected : Bool) (c : Char) (rest : Text) : Lexeme → Nat → Prop
  | string {value : Text} {inner : Nat} (quote : c = '\'')
      (found : readQuoted? rest = some (value, inner)) :
      LexemeAt operandExpected c rest (.string value) (inner + 1)
  | number {size : Nat} (bare : c ≠ '\'') (length : numericLength operandExpected c rest = size)
      (nonzero : size ≠ 0) :
      LexemeAt operandExpected c rest (.number (numberValue ((c :: rest).take size))) size
  | identifier {size : Nat} (bare : c ≠ '\'') (zero : numericLength operandExpected c rest = 0)
      (start : isIdentifierStart c = true)
      (length : ((c :: rest).takeWhile isIdentifierPart).length = size) :
      LexemeAt operandExpected c rest .identifier size
  | operator {symbol : Symbol} {size : Nat} (bare : c ≠ '\'')
      (zero : numericLength operandExpected c rest = 0) (other : isIdentifierStart c = false)
      (found : Symbol.all.find? (fun symbol => symbol.text.isPrefixOf (c :: rest)) = some symbol)
      (length : symbol.text.length = size) :
      LexemeAt operandExpected c rest (.operator symbol) size

section

variable {operandExpected : Bool} {c : Char} {rest : Text} {lexeme : Lexeme} {size : Nat}

theorem readLexeme_eq : readLexeme operandExpected c rest =
    if c = '\'' then
      match readQuoted? rest with
      | some (value, size) => .ok (.string value, size + 1)
      | none => .error (Text.of "Unterminated string literal")
    else if numericLength operandExpected c rest ≠ 0 then
      .ok (.number (numberValue ((c :: rest).take (numericLength operandExpected c rest))),
        numericLength operandExpected c rest)
    else if isIdentifierStart c then
      .ok (.identifier, ((c :: rest).takeWhile isIdentifierPart).length)
    else
      match Symbol.all.find? (fun symbol => symbol.text.isPrefixOf (c :: rest)) with
      | some symbol => .ok (.operator symbol, symbol.text.length)
      | none => .error (Text.of "Unexpected character '" ++ [c, '\'']) := by
  rfl

theorem readLexeme_iff : readLexeme operandExpected c rest = .ok (lexeme, size) ↔
    LexemeAt operandExpected c rest lexeme size := by
  rw [readLexeme_eq]
  constructor
  · intro read
    split at read
    · rename_i quote
      split at read
      · rename_i value inner found
        cases read
        exact .string quote found
      · cases read
    · rename_i bare
      split at read
      · rename_i nonzero
        cases read
        exact .number bare rfl nonzero
      · rename_i zero
        have zero := Decidable.not_not.mp zero
        split at read
        · rename_i start
          cases read
          exact .identifier bare zero start rfl
        · rename_i other
          split at read
          · rename_i symbol found
            cases read
            exact .operator bare zero (Bool.eq_false_iff.mpr other) found rfl
          · cases read
  · intro present
    cases present with
    | string quote found => rw [if_pos quote, found]
    | number bare length nonzero => rw [if_neg bare, length, if_pos nonzero]
    | identifier bare zero start length =>
        rw [if_neg bare, zero, if_neg (by simp), if_pos start, length]
    | operator bare zero other found length =>
        rw [if_neg bare, zero, if_neg (by simp), if_neg (by simp [other]), found, ← length]

theorem numericLength_eq (nonzero : numericLength operandExpected c rest ≠ 0) :
    numericLength operandExpected c rest = numberLength (c :: rest) := by
  rw [numericLength] at nonzero ⊢
  split at nonzero
  · rename_i starts
    rw [if_pos starts]
  · exact absurd rfl nonzero

theorem readLexeme_cases (read : readLexeme operandExpected c rest = .ok (lexeme, size)) :
    (∃ value inner, c = '\'' ∧ readQuoted? rest = some (value, inner) ∧
      lexeme = .string value ∧ size = inner + 1) ∨
    (size = numberLength (c :: rest) ∧ size ≠ 0 ∧
      lexeme = .number (numberValue ((c :: rest).take size))) ∨
    (isIdentifierStart c = true ∧ lexeme = .identifier ∧
      size = ((c :: rest).takeWhile isIdentifierPart).length) ∨
    ∃ symbol : Symbol, lexeme = .operator symbol ∧ symbol.text <+: c :: rest ∧
      size = symbol.text.length := by
  cases readLexeme_iff.mp read with
  | string quote found => exact .inl ⟨_, _, quote, found, rfl, rfl⟩
  | number bare length nonzero =>
      rw [← length] at nonzero
      exact .inr (.inl ⟨length.symm.trans (numericLength_eq nonzero), length ▸ nonzero, rfl⟩)
  | identifier bare zero start length => exact .inr (.inr (.inl ⟨start, rfl, length.symm⟩))
  | operator bare zero other found length =>
      have leads := List.find?_some found
      rw [List.isPrefixOf_iff_prefix] at leads
      exact .inr (.inr (.inr ⟨_, rfl, leads, length.symm⟩))

end

theorem tokens_of_readFrom {P : Lexeme → Text → Prop} (finish : P .finish [])
    (each : ∀ {operandExpected c rest lexeme size},
      readLexeme operandExpected c rest = .ok (lexeme, size) → P lexeme ((c :: rest).take size))
    {position skip : Nat} {before : Option Lexeme} {text : Text} {tokens : List Token}
    (read : readFrom position before skip text = .ok tokens) (token : Token)
    (member : token ∈ tokens) : P token.lexeme token.text := by
  fun_induction readFrom position before skip text generalizing tokens with
  | case1 =>
      cases read
      cases List.mem_singleton.mp member
      exact finish
  | case2 position before skip c rest ih => exact ih read member
  | case3 position before c rest blank ih => exact ih read member
  | case4 => cases read
  | case5 => cases read
  | case6 =>
      rename_i lexeme size lexed later done ih
      cases read
      rcases List.mem_cons.mp member with rfl | further
      · exact each lexed
      · exact ih done further

theorem identifiers_of_readFrom {position skip : Nat} {before : Option Lexeme} {text : Text}
    {tokens : List Token} (read : readFrom position before skip text = .ok tokens) (token : Token)
    (member : token ∈ tokens) (name : token.lexeme = .identifier) : IsIdentifier token.text := by
  refine tokens_of_readFrom (P := fun lexeme text => lexeme = .identifier → IsIdentifier text)
    ?_ ?_ read token member name
  · intro name
    cases name
  · intro operandExpected c rest lexeme size lexed name
    rcases readLexeme_cases lexed with ⟨_, _, -, -, rfl, -⟩ | ⟨-, -, rfl⟩ | ⟨start, -, rfl⟩ |
      ⟨_, rfl, -⟩
    · cases name
    · cases name
    · have part : isIdentifierPart c = true := by simp [isIdentifierPart, start]
      have whole : (c :: rest).take ((c :: rest).takeWhile isIdentifierPart).length =
          c :: rest.takeWhile isIdentifierPart := by
        rw [Text.take_takeWhile, List.takeWhile_cons_of_pos part]
      exact ⟨c, _, whole, start, fun _ => List.mem_takeWhile_imp⟩
    · cases name

theorem numerals_of_readFrom {position skip : Nat} {before : Option Lexeme} {text : Text}
    {tokens : List Token} (read : readFrom position before skip text = .ok tokens) (token : Token)
    (member : token ∈ tokens) {value : Number} (number : token.lexeme = .number value) :
    IsNumeral token.text ∧ value = numberValue token.text := by
  refine tokens_of_readFrom (P := fun lexeme text =>
    ∀ value, lexeme = .number value → IsNumeral text ∧ value = numberValue text)
    ?_ ?_ read token member value number
  · intro value number
    cases number
  · intro operandExpected c rest lexeme size lexed value number
    rcases readLexeme_cases lexed with ⟨_, _, -, -, rfl, -⟩ | ⟨rfl, nonzero, rfl⟩ | ⟨-, rfl, -⟩ |
      ⟨_, rfl, -⟩
    · cases number
    · cases number
      exact ⟨numberLength_form nonzero, rfl⟩
    · cases number
    · cases number

end Grammar

end Flowfile
