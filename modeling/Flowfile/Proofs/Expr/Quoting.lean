import Flowfile.Expr.Template
import Flowfile.Proofs.Expr.Lexing

/-! The scanner of templates and the tokenizer agree on where string literals and expressions end.

Both leave a string literal at the same quote. What carries this is the parity of the quotes that
have been passed: every lexeme leaves it even, and so does the scanner where it closes. -/

namespace Flowfile

def Span.shift (distance : Nat) (span : Span) : Span :=
  { span with start := span.start + distance, stop := span.stop + distance }

namespace Template

def closer : Text := ['\x7d', '\x7d']

def Plain (c : Char) : Prop := c ≠ '\'' ∧ c ≠ '\x7d'

def PlainPrefix (size : Nat) (text : Text) : Prop := ∀ c ∈ text.take size, Plain c

theorem plainPrefix_zero (text : Text) : PlainPrefix 0 text := by
  intro c member
  cases member

theorem plainPrefix_cons (size : Nat) (c : Char) (text : Text) (plain : Plain c)
    (others : PlainPrefix size text) : PlainPrefix (size + 1) (c :: text) := by
  intro d member
  rcases List.mem_cons.mp member with rfl | member
  · exact plain
  · exact others d member

theorem plainPrefix_takeWhile (accepts : Char → Bool) (text : Text)
    (plain : ∀ c, accepts c = true → Plain c) :
    PlainPrefix (text.takeWhile accepts).length text := by
  intro c member
  rw [Text.take_takeWhile] at member
  exact plain c (List.mem_takeWhile_imp member)

theorem plain_of_range (c first last : Char) (low : first ≤ c) (high : c ≤ last)
    (quote : '\'' < first) (brace : last < '\x7d') : Plain c := by
  constructor
  · rintro rfl
    exact absurd quote (Char.not_lt.mpr low)
  · rintro rfl
    exact absurd brace (Char.not_lt.mpr high)

theorem plain_of_digit (c : Char) (digit : Text.isAsciiDigit c = true) : Plain c := by
  simp only [Text.isAsciiDigit, Bool.and_eq_true, decide_eq_true_eq] at digit
  exact plain_of_range c '0' '9' digit.1 digit.2 (by decide) (by decide)

theorem plain_of_letter (c : Char) (letter : Text.isAsciiLetter c = true) : Plain c := by
  simp only [Text.isAsciiLetter, Bool.or_eq_true, Bool.and_eq_true, decide_eq_true_eq] at letter
  rcases letter with ⟨low, high⟩ | ⟨low, high⟩
  · exact plain_of_range c 'a' 'z' low high (by decide) (by decide)
  · exact plain_of_range c 'A' 'Z' low high (by decide) (by decide)

theorem plain_of_hexDigit (c : Char) (digit : Text.isHexDigit c = true) : Plain c := by
  simp only [Text.isHexDigit, Bool.or_eq_true, Bool.and_eq_true, decide_eq_true_eq] at digit
  rcases digit with (digit | ⟨low, high⟩) | ⟨low, high⟩
  · exact plain_of_digit c digit
  · exact plain_of_range c 'a' 'f' low high (by decide) (by decide)
  · exact plain_of_range c 'A' 'F' low high (by decide) (by decide)

theorem plain_of_identifierPart (c : Char) (part : Token.isIdentifierPart c = true) : Plain c := by
  simp only [Token.isIdentifierPart, Token.isIdentifierStart, Bool.or_eq_true,
    decide_eq_true_eq] at part
  rcases part with ((letter | rfl) | digit) | rfl
  · exact plain_of_letter c letter
  · exact ⟨by decide, by decide⟩
  · exact plain_of_digit c digit
  · exact ⟨by decide, by decide⟩

theorem plain_of_blank (c : Char) (blank : Text.isBlank c = true) : Plain c := by
  constructor
  · rintro rfl
    exact absurd blank (by decide)
  · rintro rfl
    exact absurd blank (by decide)

theorem plain_of_symbol (symbol : Symbol) : ∀ c ∈ symbol.text, Plain c := by
  cases symbol <;> simp [Symbol.text, Plain]

theorem numberLength_plain (text : Text) : PlainPrefix (Token.numberLength text) text := by
  by_cases none : Token.numberLength text = 0
  · rw [none]
    exact plainPrefix_zero text
  · intro c member
    rcases (Token.numberLength_form none).mem member with digit | mark
    · exact plain_of_hexDigit c digit
    · simp only [List.mem_cons, List.not_mem_nil, or_false] at mark
      rcases mark with rfl | rfl | rfl | rfl <;> exact ⟨by decide, by decide⟩

theorem readLexeme_eq_ok (operandExpected : Bool) (c : Char) (rest : Text) (lexeme : Lexeme)
    (size : Nat) (read : Token.readLexeme operandExpected c rest = .ok (lexeme, size)) :
    (c = '\'' ∧ ∃ value inner, Token.readQuoted? rest = some (value, inner) ∧ size = inner + 1) ∨
      (0 < size ∧ PlainPrefix size (c :: rest)) := by
  rcases Grammar.readLexeme_cases read with ⟨value, inner, quote, found, -, rfl⟩ |
    ⟨rfl, some, -⟩ | ⟨start, -, rfl⟩ | ⟨symbol, -, leads, rfl⟩
  · exact .inl ⟨quote, value, inner, found, rfl⟩
  · exact .inr ⟨Nat.pos_of_ne_zero some, numberLength_plain _⟩
  · refine .inr ⟨?_, plainPrefix_takeWhile _ _ plain_of_identifierPart⟩
    simp [Token.isIdentifierPart, start]
  · refine .inr ⟨by cases symbol <;> decide, ?_⟩
    intro d member
    rw [← List.prefix_iff_eq_take.mp leads] at member
    exact plain_of_symbol symbol d member

theorem plainPrefix_parity (size : Nat) (text : Text) (plain : PlainPrefix size text) :
    (text.take size).count '\'' % 2 = 0 := by
  have absent : '\'' ∉ text.take size := fun member => (plain _ member).1 rfl
  rw [List.count_eq_zero.mpr absent]

theorem quotes_cons (inString : Bool) (c : Char) (text : Text) :
    (c :: text).count '\'' % 2 = (if inString then 1 else 0) ↔
      text.count '\'' % 2 = if inString ^^ decide (c = '\'') then 1 else 0 := by
  by_cases quote : c = '\''
  · subst quote
    rw [List.count_cons_self]
    cases inString <;> simp <;> omega
  · rw [List.count_cons_of_ne quote]
    simp [quote]

/-- The scanner closes an expression where the quotes before it are even. -/
theorem closing?_parity (inString : Bool) (body : Text) (size : Nat)
    (found : closing? inString body = some size) :
    (body.take size).count '\'' % 2 = if inString then 1 else 0 := by
  fun_induction closing? inString body generalizing size with
  | case1 => cases found
  | case2 rest ih =>
      obtain ⟨inner, closed, rfl⟩ := Option.map_eq_some_iff.mp found
      have parity := ih inner closed
      rw [List.take_succ_cons, List.take_succ_cons, quotes_cons, quotes_cons]
      simpa using parity
  | case3 c rest single ih =>
      obtain ⟨inner, closed, rfl⟩ := Option.map_eq_some_iff.mp found
      have parity := ih inner closed
      rw [List.take_succ_cons, quotes_cons]
      simpa using parity
  | case4 rest =>
      cases found
      rfl
  | case5 c rest open' ih =>
      obtain ⟨inner, closed, rfl⟩ := Option.map_eq_some_iff.mp found
      have parity := ih inner closed
      rw [List.take_succ_cons, quotes_cons]
      simpa using parity

theorem readQuoted?_eq_some (rest value : Text) (size : Nat)
    (read : Token.readQuoted? rest = some (value, size)) :
    size ≤ rest.length ∧ (rest.take size).count '\'' % 2 = 1 := by
  fun_induction Token.readQuoted? rest generalizing value size with
  | case1 => cases read
  | case2 rest ih =>
      obtain ⟨⟨inner, length⟩, found, same⟩ := Option.map_eq_some_iff.mp read
      cases same
      obtain ⟨bound, parity⟩ := ih inner length found
      refine ⟨by simpa using bound, ?_⟩
      simp only [List.take_succ_cons, List.count_cons_self]
      omega
  | case3 rest single =>
      cases read
      exact ⟨by simp, by simp⟩
  | case4 c rest double quote ih =>
      obtain ⟨⟨inner, length⟩, found, same⟩ := Option.map_eq_some_iff.mp read
      cases same
      obtain ⟨bound, parity⟩ := ih inner length found
      refine ⟨by simpa using bound, ?_⟩
      rw [List.take_succ_cons, List.count_cons_of_ne (by simpa using quote)]
      exact parity

theorem readQuoted?_ne_none (rest : Text) (odd : rest.count '\'' % 2 = 1) :
    Token.readQuoted? rest ≠ none := by
  fun_induction Token.readQuoted? rest with
  | case1 => cases odd
  | case2 rest ih =>
      simp only [List.count_cons_self] at odd
      have inner := ih (by omega)
      simpa using inner
  | case3 rest single => simp
  | case4 c rest double quote ih =>
      rw [List.count_cons_of_ne (by simpa using quote)] at odd
      simpa using ih odd

theorem readLexeme_parity (operandExpected : Bool) (c : Char) (rest : Text) (lexeme : Lexeme)
    (size : Nat) (read : Token.readLexeme operandExpected c rest = .ok (lexeme, size)) :
    0 < size ∧ ((c :: rest).take size).count '\'' % 2 = 0 := by
  rcases readLexeme_eq_ok operandExpected c rest lexeme size read with
    ⟨rfl, value, inner, found, rfl⟩ | ⟨positive, plain⟩
  · have parity := (readQuoted?_eq_some rest value inner found).2
    refine ⟨Nat.succ_pos inner, ?_⟩
    rw [List.take_succ_cons, List.count_cons_self]
    omega
  · exact ⟨positive, plainPrefix_parity size _ plain⟩

theorem readLexeme_terminated (operandExpected : Bool) (c : Char) (rest message : Text)
    (even : (c :: rest).count '\'' % 2 = 0)
    (read : Token.readLexeme operandExpected c rest = .error message) :
    message ≠ Text.of "Unterminated string literal" := by
  rw [Grammar.readLexeme_eq] at read
  split at read
  · rename_i quote
    subst quote
    split at read
    · cases read
    · rename_i missing
      rw [List.count_cons_self] at even
      exact absurd missing (readQuoted?_ne_none rest (by omega))
  · split at read
    · cases read
    · split at read
      · cases read
      · split at read
        · cases read
        · cases read
          intro same
          have third : some 'e' = some 't' := congrArg (fun text : Text => text[2]?) same
          exact absurd third (by decide)

theorem readFrom_terminated (text : Text) (position skip : Nat) (previous : Option Lexeme)
    (even : (text.drop skip).count '\'' % 2 = 0) (error : ExprError)
    (read : Token.readFrom position previous skip text = .error error) :
    error.message ≠ Text.of "Unterminated string literal" := by
  fun_induction Token.readFrom position previous skip text with
  | case1 => cases read
  | case2 position previous skip c rest ih => exact ih even read
  | case3 position previous c rest blank ih =>
      rw [List.drop_zero, List.count_cons_of_ne (plain_of_blank c blank).1] at even
      exact ih even read
  | case4 position previous c rest solid operandExpected message failed =>
      cases read
      exact readLexeme_terminated _ c rest message even failed
  | case5 position previous c rest solid operandExpected lexeme size lexed failure failed ih =>
      cases read
      obtain ⟨positive, parity⟩ := readLexeme_parity _ c rest lexeme size lexed
      refine ih ?_ failed
      have whole := congrArg (List.count '\'') (List.take_append_drop size (c :: rest))
      rw [List.count_append, List.drop_cons positive] at whole
      rw [List.drop_zero] at even
      omega
  | case6 => cases read

theorem closing?_outside (c : Char) (rest : Text) (brace : c ≠ '\x7d') :
    closing? false (c :: rest) = (closing? (c = '\'') rest).map (· + 1) := by
  exact closing?.eq_5 c rest fun _ same _ => brace same

theorem closing?_inside (c : Char) (rest : Text)
    (single : ∀ more, c = '\'' → rest ≠ '\'' :: more) :
    closing? true (c :: rest) = (closing? (c ≠ '\'') rest).map (· + 1) := by
  exact closing?.eq_3 c rest single

theorem closing?_plain (size : Nat) (text after : Text) (plain : PlainPrefix size text) :
    closing? false (text ++ after) =
      (closing? false (text.drop size ++ after)).map (· + (text.take size).length) := by
  induction size generalizing text with
  | zero => simp
  | succ size ih =>
      cases text with
      | nil => simp
      | cons c text =>
          have first : Plain c := plain c (by simp)
          have inner := ih text fun d member => plain d (by simp [member])
          rw [List.cons_append, closing?_outside _ _ first.2, decide_eq_false first.1, inner, Option.map_map]
          simp [Function.comp_def, Nat.add_assoc]

theorem closing?_quoted (rest value after : Text) (size : Nat)
    (read : Token.readQuoted? rest = some (value, size)) (bare : after.head? ≠ some '\'') :
    closing? true (rest ++ after) =
      (closing? false (rest.drop size ++ after)).map (· + size) := by
  fun_induction Token.readQuoted? rest generalizing value size with
  | case1 => cases read
  | case2 rest ih =>
      obtain ⟨⟨inner, length⟩, found, same⟩ := Option.map_eq_some_iff.mp read
      cases same
      rw [List.cons_append, List.cons_append, closing?, ih inner length found, Option.map_map]
      simp [Function.comp_def, Nat.add_assoc]
  | case3 rest single =>
      cases read
      have next : ∀ more, rest ++ after ≠ '\'' :: more := by
        intro more same
        cases rest with
        | nil => exact bare (by rw [List.nil_append] at same; rw [same]; rfl)
        | cons c rest =>
            cases same
            exact single rest rfl
      rw [List.cons_append, closing?_inside _ _ fun more _ => next more]
      simp
  | case4 c rest double quote ih =>
      obtain ⟨⟨inner, length⟩, found, same⟩ := Option.map_eq_some_iff.mp read
      cases same
      rw [List.cons_append, closing?_inside _ _ fun _ same => (quote same).elim,
        decide_eq_true (show c ≠ '\'' from quote), ih inner length found, Option.map_map]
      simp [Function.comp_def, Nat.add_assoc]

theorem closing?_source (text after : Text) (position skip : Nat) (previous : Option Lexeme)
    (tokens : List Token) (read : Token.readFrom position previous skip text = .ok tokens) :
    closing? false (text.drop skip ++ (closer ++ after)) = some (text.drop skip).length := by
  fun_induction Token.readFrom position previous skip text generalizing tokens with
  | case1 => simp [closer, closing?]
  | case2 position previous skip c rest ih => exact ih tokens read
  | case3 position previous c rest blank ih =>
      have first := closing?_plain 1 (c :: rest) (closer ++ after)
        (plainPrefix_cons 0 c rest (plain_of_blank c blank) (plainPrefix_zero rest))
      rw [List.drop_zero, first, List.drop_succ_cons, ih tokens read]
      rfl
  | case4 => cases read
  | case5 => cases read
  | case6 position previous c rest solid operandExpected lexeme size lexed more found ih =>
      have inner := ih more found
      rcases readLexeme_eq_ok _ c rest lexeme size lexed with
        ⟨rfl, value, length, quoted, rfl⟩ | ⟨positive, plain⟩
      · obtain ⟨bound, -⟩ := readQuoted?_eq_some rest value length quoted
        rw [Nat.add_sub_cancel] at inner
        rw [List.drop_zero, List.cons_append, closing?_outside _ _ (by decide), decide_eq_true rfl,
          closing?_quoted rest value _ length quoted (by simp [closer]), inner]
        simp only [Option.map_some, List.length_drop, List.length_cons, Option.some.injEq]
        omega
      · rw [← List.drop_cons positive] at inner
        rw [List.drop_zero, closing?_plain size _ _ plain, inner, Option.map_some,
          Nat.add_comm, ← List.length_append, List.take_append_drop]

theorem spansFrom_closed (position skip : Nat) (text : Text) (span : Span)
    (member : span ∈ spansFrom position skip text) (closed : span.closed = true) :
    ∃ body size, closing? false body = some size ∧ span.source = body.take size := by
  fun_induction spansFrom position skip text with
  | case1 => cases member
  | case2 position skip c rest ih => exact ih member
  | case3 position c rest opens body missing =>
      rw [List.mem_singleton] at member
      subst member
      cases closed
  | case4 position c rest opens body size found ih =>
      rcases List.mem_cons.mp member with rfl | later
      · exact ⟨body, size, found, rfl⟩
      · exact ih later
  | case5 position c rest other ih => exact ih member

theorem spansFrom_unclosed (position : Nat) (c : Char) (rest : Text)
    (opens : opener.isPrefixOf (c :: rest) = true) (missing : closing? false (rest.drop 2) = none) :
    spansFrom position 0 (c :: rest) =
      [⟨position, position + 3 + (rest.drop 2).length, rest.drop 2, false⟩] := by
  rw [spansFrom, if_pos opens]
  dsimp only
  rw [missing]

theorem spansFrom_enclosed (position : Nat) (c : Char) (rest : Text) (size : Nat)
    (opens : opener.isPrefixOf (c :: rest) = true)
    (found : closing? false (rest.drop 2) = some size) :
    spansFrom position 0 (c :: rest) =
      ⟨position, position + size + 5, (rest.drop 2).take size, true⟩ ::
        spansFrom (position + 1) (size + 4) rest := by
  rw [spansFrom, if_pos opens]
  dsimp only
  rw [found]

theorem spansFrom_shift (distance position skip : Nat) (text : Text) :
    spansFrom (position + distance) skip text =
      (spansFrom position skip text).map (Span.shift distance) := by
  fun_induction spansFrom position skip text with
  | case1 => simp [spansFrom]
  | case2 position skip c rest ih => rw [spansFrom, Nat.add_right_comm, ih]
  | case3 position c rest opens body missing =>
      have stop : position + distance + 3 + (rest.drop 2).length =
          position + 3 + (rest.drop 2).length + distance := by omega
      rw [spansFrom_unclosed _ c rest opens missing, stop]
      rfl
  | case4 position c rest opens body size found ih =>
      have stop : position + distance + size + 5 = position + size + 5 + distance := by omega
      rw [spansFrom_enclosed _ c rest size opens found, stop,
        Nat.add_right_comm position distance 1, ih]
      rfl
  | case5 position c rest other ih => rw [spansFrom, if_neg other, Nat.add_right_comm, ih]

theorem spansFrom_skip (position : Nat) (passed text : Text) :
    spansFrom position passed.length (passed ++ text) =
      spansFrom (position + passed.length) 0 text := by
  induction passed generalizing position with
  | nil => rfl
  | cons c passed ih =>
      rw [List.length_cons, List.cons_append, spansFrom, ih]
      congr 1
      omega

theorem opener_apart (c : Char) (rest tail : Text) (apart : opener.isPrefixOf (c :: rest) = false) :
    opener.isPrefixOf (c :: (rest ++ (opener ++ tail))) = false := by
  rcases rest with _ | ⟨d, _ | ⟨e, rest⟩⟩
  · simp [opener, List.isPrefixOf]
  · simp [opener, List.isPrefixOf]
  · simpa [opener, List.isPrefixOf] using apart

theorem spansFrom_before (position : Nat) (before tail : Text)
    (free : hasExpression before = false) :
    spansFrom position 0 (before ++ (opener ++ tail)) =
      spansFrom (position + before.length) 0 (opener ++ tail) := by
  induction before generalizing position with
  | nil => rfl
  | cons c before ih =>
      simp only [hasExpression, Text.hasInfix, Text.search?] at free
      split at free
      · cases free
      · rename_i apart
        rw [Option.isSome_map] at free
        rw [List.cons_append, spansFrom, opener_apart c before tail (Bool.eq_false_iff.mpr apart)]
        rw [if_neg Bool.false_ne_true, ih _ free, List.length_cons]
        congr 1
        omega

theorem spans_enclosed {before source after : Text} (free : hasExpression before = false)
    (found : closing? false (source ++ (closer ++ after)) = some source.length) :
    spans (before ++ (opener ++ (source ++ (closer ++ after)))) =
      ⟨before.length, before.length + source.length + 5, source, true⟩ ::
        (spans after).map (Span.shift (before.length + source.length + 5)) := by
  have shifted := spansFrom_shift (before.length + source.length + 5) 0 0 after
  rw [Nat.zero_add, ← spans] at shifted
  let passed : Text := '\x7b' :: '\x7b' :: (source ++ closer)
  have size : passed.length = source.length + 4 := by simp [passed, closer]
  have skipped := spansFrom_skip (before.length + 1) passed after
  rw [size, show before.length + 1 + (source.length + 4) = before.length + source.length + 5
    by omega] at skipped
  rw [spans, spansFrom_before 0 before _ free, Nat.zero_add]
  rw [show opener ++ (source ++ (closer ++ after)) =
    '$' :: (passed ++ after) by simp [opener, passed]]
  have body : (passed ++ after).drop 2 = source ++ (closer ++ after) := by simp [passed]
  rw [← body] at found
  rw [spansFrom_enclosed _ _ _ source.length (by simp [opener, passed]) found, skipped, shifted,
    body, List.take_left]

theorem spans_embedded (source before after : Text) (tokens : List Token)
    (read : Token.readAll source = .ok tokens) (free : hasExpression before = false) :
    spans (before ++ (opener ++ (source ++ (closer ++ after)))) =
      ⟨before.length, before.length + source.length + 5, source, true⟩ ::
        (spans after).map (Span.shift (before.length + source.length + 5)) :=
  spans_enclosed free (closing?_source source after 0 0 none tokens read)

theorem spans_agree_readAll :
    (∀ text span error, span ∈ spans text → span.closed = true →
      Token.readAll span.source = .error error →
        error.message ≠ Text.of "Unterminated string literal") ∧
    (∀ source tokens before after, Token.readAll source = .ok tokens →
      hasExpression before = false →
        spans (before ++ (opener ++ (source ++ (closer ++ after)))) =
          ⟨before.length, before.length + source.length + 5, source, true⟩ ::
            (spans after).map (Span.shift (before.length + source.length + 5))) := by
  constructor
  · intro text span error member closed read
    obtain ⟨body, size, found, same⟩ := spansFrom_closed 0 0 text span member closed
    refine readFrom_terminated span.source 0 0 none ?_ error read
    rw [List.drop_zero, same, closing?_parity false body size found]
    rfl
  · intro source tokens before after read free
    exact spans_embedded source before after tokens read free

/-- A closing delimiter inside a literal, and a literal right before the closing delimiter. -/
theorem spans_agree_readAll_literal :
    let source := Text.of "'it''s \x7d\x7d'"
    let before := Text.of "$\x7b a"
    let after := Text.of "$\x7b\x7b b \x7d\x7d"
    let tokens : List Token :=
      [⟨.string (Text.of "it's \x7d\x7d"), source, 0⟩, ⟨.finish, [], 10⟩]
    Token.readAll source = .ok tokens ∧ hasExpression before = false ∧
      spans (before ++ (opener ++ (source ++ (closer ++ after)))) =
        [⟨4, 19, source, true⟩, ⟨19, 27, Text.of " b ", true⟩] := by
  intro source before after tokens
  have read : Token.readAll source = .ok tokens := by rfl
  have free : hasExpression before = false := by decide
  refine ⟨read, free, ?_⟩
  rw [spans_agree_readAll.2 source tokens before after read free]
  decide

end Template

end Flowfile
