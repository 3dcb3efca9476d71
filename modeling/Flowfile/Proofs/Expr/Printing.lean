import Flowfile.Proofs.Expr.Formation
import Flowfile.Proofs.Expr.Lexing

/-! Printing an expression and parsing what was printed.

Every part of a printed expression stands in parentheses, so no operator takes an operand from
another one, and no lexeme runs into the next. -/

namespace Flowfile

namespace Expr

open Grammar Token

def literalText : Value → Text
  | .null => Text.of "null"
  | .bool true => Text.of "true"
  | .bool false => Text.of "false"
  | .str text => quoted text
  | .number (.int i) => Text.ofInt i
  | _ => []

def enclosed (text : Text) : Text := '(' :: (text ++ [')'])

mutual

/-- The expression in parentheses, and in it every part in parentheses. -/
def print : Expr → Text
  | .literal value => enclosed (literalText value)
  | .context name => enclosed name
  | .property target name => enclosed (print target ++ '.' :: name)
  | .index target key => enclosed (print target ++ '[' :: (print key ++ [']']))
  | .not operand => enclosed ('!' :: print operand)
  | .binary op left right => enclosed (print left ++ (Text.of op.text ++ print right))
  | .call function args => enclosed (function.name ++ '(' :: (printArgs args ++ [')']))

def printArgs : List Expr → Text
  | [] => []
  | first :: rest => print first ++ printMoreArgs rest

def printMoreArgs : List Expr → Text
  | [] => []
  | next :: rest => ',' :: (print next ++ printMoreArgs rest)

end

/-- Null, a truth value, a text, or an integer of no more digits than are read as one. -/
def IsPlain : Value → Prop
  | .null | .bool _ | .str _ => True
  | .number (.int i) => (Nat.toDigits 10 i.natAbs).length ≤ digitLimit
  | _ => False

theorem text_symbol (op : BinaryOp) : Text.of op.text = op.symbol.text := by
  cases op <;> rfl

theorem name_isIdentifier (function : Function) : IsIdentifier function.name := by
  cases function <;> exact isIdentifier_of_all (by decide) (by decide)

theorem print_opens (e : Expr) : ∃ rest, print e = '(' :: rest := by
  cases e <;> exact ⟨_, rfl⟩

theorem exists_raised (front : List (List BinaryOp)) {levels : List (List BinaryOp)}
    (p : Phrase levels) :
    ∃ q : Phrase (front ++ levels), q.words = p.words ∧ q.expr = p.expr := by
  induction front with
  | nil => exact ⟨p, rfl, rfl⟩
  | cons level front ih =>
      obtain ⟨q, words, expr⟩ := ih
      refine ⟨.chain q .done, ?_, ?_⟩
      · simp [Phrase.words, Operands.words, words]
      · simp [Phrase.expr, Operands.applyTo, expr]

theorem exists_level (op : BinaryOp) :
    ∃ front level tighter, BinaryOp.levels = front ++ level :: tighter ∧ op ∈ level := by
  cases op with
  | or => exact ⟨[], _, _, rfl, by decide⟩
  | and => exact ⟨[[.or]], _, _, rfl, by decide⟩
  | eq | ne => exact ⟨[[.or], [.and]], _, _, rfl, by decide⟩
  | lt | le | gt | ge => exact ⟨[[.or], [.and], [.eq, .ne]], _, _, rfl, by decide⟩

theorem exists_unary (levels : List (List BinaryOp)) (p : Phrase []) :
    ∃ q : Phrase levels, q.words = p.words ∧ q.expr = p.expr := by
  have raised := exists_raised levels p
  rwa [List.append_nil] at raised

theorem exists_primary (levels : List (List BinaryOp)) (p : Primary) :
    ∃ q : Phrase levels, q.words = p.words ∧ q.expr = p.expr := by
  obtain ⟨q, words, expr⟩ := exists_unary levels (.access p .done)
  exact ⟨q, by simpa [Phrase.words, Accessors.words] using words, expr⟩

theorem exists_not (p : Primary) :
    ∃ q : Phrase BinaryOp.levels, q.words = .symbol .not :: p.words ∧ q.expr = .not p.expr := by
  obtain ⟨operand, words, expr⟩ := exists_primary [] p
  obtain ⟨q, words', expr'⟩ := exists_unary BinaryOp.levels (.not operand)
  refine ⟨q, ?_, ?_⟩
  · rw [words', Phrase.words, words]
  · rw [expr', Phrase.expr, expr]

theorem exists_binary (op : BinaryOp) (left right : Primary) :
    ∃ q : Phrase BinaryOp.levels, q.words = left.words ++ .symbol op.symbol :: right.words ∧
      q.expr = .binary op left.expr right.expr := by
  obtain ⟨front, level, tighter, whole, member⟩ := exists_level op
  obtain ⟨first, words, expr⟩ := exists_primary tighter left
  obtain ⟨second, words', expr'⟩ := exists_primary tighter right
  obtain ⟨q, spelled, built⟩ :=
    exists_raised front (.chain first (.more op member second (.done : Operands level tighter)))
  rw [whole]
  refine ⟨q, ?_, ?_⟩
  · rw [spelled, Phrase.words, Operands.words, Operands.words, words, words', List.append_nil]
  · rw [built, Phrase.expr, Operands.applyTo, Operands.applyTo, expr, expr']

abbrev opened : Option Lexeme := some (.operator .openParen)

abbrev closed : Option Lexeme := some (.operator .closeParen)

def Printed (e : Expr) : Prop :=
  ∃ p : Primary, p.expr = e ∧
    ∀ before, Reads Anything before (print e) p.words closed

section

variable {fit fit' : Text → Prop} {before after : Option Lexeme} {text : Text} {words : List Word}

theorem reads_weaker (reads : Reads fit before text words after)
    (weaker : ∀ rest, fit' rest → fit rest) : Reads fit' before text words after :=
  fun position rest follows => reads position rest (weaker rest follows)

theorem reads_enclosed
    (inner : Reads (Ahead (· = ')')) opened text words after)
    (before : Option Lexeme) :
    Reads Anything before (enclosed text)
      (.symbol .openParen :: (words ++ [.symbol .closeParen])) closed := by
  have closes : Reads Anything after [')'] [.symbol .closeParen] _ := reads_bracket (by simp)
  have opens : Reads Anything before ['('] [.symbol .openParen] _ := reads_bracket (by simp)
  have rest := reads_append inner closes fun more _ => ⟨')', more, rfl, rfl⟩
  exact reads_append opens rest fun _ _ => trivial

theorem printed_of_reads {e : Expr} (phrase : Phrase BinaryOp.levels) (built : phrase.expr = e)
    (spelled : phrase.words = words) (body : print e = enclosed text)
    (inner : Reads fit opened text words after) (fits : ∀ rest, fit (')' :: rest)) :
    Printed e := by
  refine ⟨.group phrase, built, ?_⟩
  intro before
  rw [body, Primary.words, spelled]
  refine reads_enclosed (reads_weaker inner ?_) before
  intro rest follows
  obtain ⟨c, more, rfl, rfl⟩ := follows
  exact fits more

theorem printed_word {e : Expr} (p : Primary) (built : p.expr = e) (body : print e = enclosed text)
    (inner : Reads fit opened text p.words after) (fits : ∀ rest, fit (')' :: rest)) :
    Printed e := by
  obtain ⟨phrase, words, expr⟩ := exists_primary BinaryOp.levels p
  exact printed_of_reads phrase (expr.trans built) words body inner fits

end

theorem literalText_constant {name : Text} {value : Value} (known : (name, value) ∈ constants) :
    literalText value = name ∧ IsIdentifier name := by
  simp only [constants, List.mem_cons, Prod.mk.injEq, List.not_mem_nil, or_false] at known
  rcases known with ⟨rfl, rfl⟩ | ⟨rfl, rfl⟩ | ⟨rfl, rfl⟩
  all_goals exact ⟨rfl, isIdentifier_of_all (by decide) (by decide)⟩

theorem printed_constant {name : Text} {value : Value} (known : (name, value) ∈ constants) :
    Printed (.literal value) := by
  obtain ⟨text, identifier⟩ := literalText_constant known
  have body : print (.literal value) = enclosed name := congrArg enclosed text
  exact printed_word (.constant name value known) rfl body (reads_name identifier)
    fun rest => ⟨')', rest, rfl, rfl⟩

theorem printed_literal {value : Value} (plain : IsPlain value) : Printed (.literal value) := by
  cases value with
  | null => exact printed_constant (show (Text.of "null", .null) ∈ constants by simp [constants])
  | bool truth =>
      cases truth with
      | true =>
          exact printed_constant (show (Text.of "true", .bool true) ∈ constants by simp [constants])
      | false =>
          exact printed_constant
            (show (Text.of "false", .bool false) ∈ constants by simp [constants])
  | str text =>
      refine printed_word (.string text) rfl rfl (reads_string text) ?_
      intro rest c first
      cases first
      decide
  | number n =>
      cases n with
      | int i =>
          refine printed_word (.number (.int i)) rfl rfl (reads_int rfl plain) ?_
          intro rest c first
          cases first
          decide
      | float d => exact absurd plain id
  | _ => exact absurd plain id

theorem printed_context {name : Text} (identifier : IsIdentifier name)
    (free : ∀ value, (name, value) ∉ constants) : Printed (.context name) := by
  exact printed_word (.context name free) rfl rfl (reads_name identifier)
    fun rest => ⟨')', rest, rfl, rfl⟩

theorem printed_property {target : Expr} {name : Text} (inner : Printed target)
    (identifier : IsIdentifier name) : Printed (.property target name) := by
  obtain ⟨p, rfl, reads⟩ := inner
  obtain ⟨phrase, words, expr⟩ :=
    exists_unary BinaryOp.levels (.access p (.property name .done))
  have named := reads_append reads_dot (reads_name identifier) fun _ _ => trivial
  have text := reads_append (reads opened) named fun _ _ => trivial
  exact printed_of_reads phrase expr words rfl text fun rest => ⟨')', rest, rfl, rfl⟩

theorem printed_index {target key : Expr} (inner : Printed target) (computed : Printed key) :
    Printed (.index target key) := by
  obtain ⟨p, rfl, reads⟩ := inner
  obtain ⟨q, rfl, reads'⟩ := computed
  obtain ⟨inside, words, expr⟩ := exists_primary BinaryOp.levels q
  obtain ⟨phrase, words', expr'⟩ :=
    exists_unary BinaryOp.levels (.access p (.index inside .done))
  have opens : Reads Anything closed ['['] [.symbol .openBracket] _ := reads_bracket (by simp)
  have closes : Reads Anything closed [']'] [.symbol .closeBracket] _ := reads_bracket (by simp)
  have computed := reads_append (reads' (some (.operator .openBracket))) closes fun _ _ => trivial
  have bracketed := reads_append opens computed fun _ _ => trivial
  have text := reads_append (reads opened) bracketed fun _ _ => trivial
  refine printed_of_reads phrase ?_ ?_ rfl text fun _ => trivial
  · rw [expr', Phrase.expr, Accessors.applyTo, Accessors.applyTo, expr]
  · rw [words', Phrase.words, Accessors.words, Accessors.words, words]
    rfl

theorem print_ahead (e : Expr) (rest : Text) : Ahead (· = '(') (print e ++ rest) := by
  obtain ⟨more, same⟩ := print_opens e
  rw [same]
  exact ⟨'(', more ++ rest, rfl, rfl⟩

theorem printed_not {operand : Expr} (inner : Printed operand) : Printed (.not operand) := by
  obtain ⟨p, rfl, reads⟩ := inner
  obtain ⟨phrase, words, expr⟩ := exists_not p
  have sign : Reads _ opened ['!'] [.symbol .not] _ := reads_operator (by decide)
  have text := reads_append sign (reads _) fun rest _ => print_ahead p.expr rest
  exact printed_of_reads phrase expr words rfl text fun _ => trivial

theorem printed_binary (op : BinaryOp) {left right : Expr} (first : Printed left)
    (second : Printed right) : Printed (.binary op left right) := by
  obtain ⟨p, rfl, reads⟩ := first
  obtain ⟨q, rfl, reads'⟩ := second
  obtain ⟨phrase, words, expr⟩ := exists_binary op p q
  have other : op.symbol ≠ .dot := by cases op <;> decide
  have sign : Reads _ closed op.symbol.text [.symbol op.symbol] _ := reads_operator other
  have signed := reads_append sign (reads' _) fun rest _ => print_ahead q.expr rest
  have text := reads_append (reads opened) signed fun _ _ => trivial
  rw [← text_symbol] at text
  exact printed_of_reads phrase expr words rfl text fun _ => trivial

theorem reads_nothing (before : Option Lexeme) : Reads Anything before [] [] before := by
  intro position rest _
  refine ⟨[], rfl, ?_⟩
  cases read : readFrom position before 0 rest with
  | error problem => simp [read, Except.map]
  | ok later => simp [read, Except.map]

theorem printed_moreArgs {args : List Expr} (inner : ∀ arg ∈ args, Printed arg) :
    ∃ p : MoreArguments args.length, p.exprs = args ∧
      Reads Anything closed (printMoreArgs args) p.words closed := by
  induction args with
  | nil => exact ⟨.done, rfl, reads_nothing closed⟩
  | cons next rest ih =>
      obtain ⟨p, rfl, reads⟩ := inner next List.mem_cons_self
      obtain ⟨more, same, reads'⟩ := ih fun arg later => inner arg (List.mem_cons_of_mem _ later)
      obtain ⟨phrase, words, expr⟩ := exists_primary BinaryOp.levels p
      have comma : Reads Anything closed [','] [.symbol .comma] _ := reads_bracket (by simp)
      have text := reads_append comma (reads_append (reads _) reads' fun _ _ => trivial)
        fun _ _ => trivial
      refine ⟨.more phrase more, ?_, ?_⟩
      · rw [MoreArguments.exprs, expr, same]
      · rw [MoreArguments.words, words]
        exact text

theorem printed_args {args : List Expr} (inner : ∀ arg ∈ args, Printed arg) :
    ∃ (p : Arguments args.length) (after : Option Lexeme), p.exprs = args ∧
      Reads Anything opened (printArgs args) p.words after := by
  cases args with
  | nil => exact ⟨.none, opened, rfl, reads_nothing opened⟩
  | cons first rest =>
      obtain ⟨p, rfl, reads⟩ := inner first List.mem_cons_self
      obtain ⟨more, same, reads'⟩ :=
        printed_moreArgs fun arg later => inner arg (List.mem_cons_of_mem _ later)
      obtain ⟨phrase, words, expr⟩ := exists_primary BinaryOp.levels p
      refine ⟨.some phrase more, closed, ?_, ?_⟩
      · rw [Arguments.exprs, expr, same]
      · rw [Arguments.words, words]
        exact reads_append (reads opened) reads' fun _ _ => trivial

theorem printed_call {function : Function} {args : List Expr}
    (fits : function.admits args.length = true) (inner : ∀ arg ∈ args, Printed arg) :
    Printed (.call function args) := by
  obtain ⟨least, greatest⟩ := (Function.admits_iff function args.length).mp fits
  obtain ⟨given, after, same, reads⟩ := printed_args inner
  have opens : Reads Anything (some .identifier) ['('] [.symbol .openParen] _ :=
    reads_bracket (by simp)
  have closes : Reads Anything after [')'] [.symbol .closeParen] _ := reads_bracket (by simp)
  have enclosing := reads_append opens (reads_append reads closes fun _ _ => trivial)
    fun _ _ => trivial
  have named : Reads _ opened function.name [.name function.name] _ :=
    reads_name (name_isIdentifier function)
  have text := reads_append named enclosing fun rest _ => ⟨'(', _, rfl, rfl⟩
  refine printed_word (.call function.name function rfl least greatest given) ?_ rfl text
    fun _ => trivial
  rw [Primary.expr, same]

theorem printed_of_wellFormed {e : Expr}
    (wellFormed : e.WellFormed IsIdentifier IsPlain) : Printed e := by
  induction wellFormed with
  | literal plain => exact printed_literal plain
  | context identifier free => exact printed_context identifier free
  | property _ identifier ih => exact printed_property ih identifier
  | index _ _ ih ih' => exact printed_index ih ih'
  | not _ ih => exact printed_not ih
  | binary _ _ ih ih' => exact printed_binary _ ih ih'
  | call fits _ ih => exact printed_call fits ih

theorem readAll_of_reads {fit : Text → Prop} {after : Option Lexeme} {text : Text}
    {words : List Word} (reads : Reads fit none text words after) (fits : fit []) :
    ∃ tokens last, last.lexeme = .finish ∧ tokens.map word? = words.map some ∧
      Token.readAll text = .ok (tokens ++ [last]) := by
  obtain ⟨tokens, spelled, read⟩ := reads 0 [] fits
  let last : Token := ⟨.finish, [], 0 + text.length⟩
  have finish : readFrom (0 + text.length) after 0 [] = .ok [last] := rfl
  rw [List.append_nil, finish] at read
  exact ⟨tokens, last, rfl, spelled, read⟩

theorem parse_of_reads {fit : Text → Prop} {after : Option Lexeme} {text : Text}
    (phrase : Phrase BinaryOp.levels) (reads : Reads fit none text phrase.words after)
    (fits : fit []) : parse text = .ok phrase.expr := by
  obtain ⟨tokens, last, final, spelled, whole⟩ := readAll_of_reads reads fits
  calc parse text
      = ofTokens (tokens ++ [last]) := by rw [parse, whole]; rfl
    _ = .ok phrase.expr := ofTokens_complete tokens last final phrase spelled

theorem parse_of_printed {e : Expr} (printed : Printed e) : parse (print e) = .ok e := by
  obtain ⟨p, rfl, reads⟩ := printed
  obtain ⟨phrase, words, expr⟩ := exists_primary BinaryOp.levels p
  have read : Reads Anything none (print p.expr) phrase.words closed := words ▸ reads none
  rw [parse_of_reads phrase read trivial, expr]

end Expr

end Flowfile
