import Flowfile.Expr.Parser

/-! What the outcome of the parser depends on.

The lexemes and the texts of the tokens up to the end of the source decide it. Where the tokens
start matters for the position of an error only, which moves with them. What stands behind the end
of the source is never looked at, and more steps than are enough make no difference. -/

namespace Flowfile

/-- The token as it is, at the image of its place. -/
def Token.placed (place : Nat → Nat) (token : Token) : Token :=
  { token with start := place token.start }

namespace Expr

/-- So many tokens and the end of the source behind them. The second list has the same tokens at the
images of their places, and then some more that stand behind the end. -/
inductive Alike (place : Nat → Nat) (more : List Token) : Nat → List Token → List Token → Prop
  | finish {text : Text} {start : Nat} :
      Alike place more 0 [⟨.finish, text, start⟩] (⟨.finish, text, place start⟩ :: more)
  | token {count : Nat} {lexeme : Lexeme} {text : Text} {start : Nat} {rest rest' : List Token}
      (later : Alike place more count rest rest') :
      Alike place more (count + 1) (⟨lexeme, text, start⟩ :: rest)
        (⟨lexeme, text, place start⟩ :: rest')

/-- Both succeed with related results, or both fail with the same message, at a place and at its
image. -/
inductive Agree (place : Nat → Nat) {α : Type} (related : α → α → Prop) :
    Except ExprError α → Except ExprError α → Prop
  | ok {a b : α} (same : related a b) : Agree place related (.ok a) (.ok b)
  | error {message : Text} {position : Nat} :
      Agree place related (.error ⟨message, position⟩) (.error ⟨message, place position⟩)

inductive Leaves (place : Nat → Nat) (more : List Token) (bound : Nat) {α : Type} :
    α × List Token → α × List Token → Prop
  | intro {a : α} {count : Nat} {rest rest' : List Token} (fewer : count < bound)
      (alike : Alike place more count rest rest') : Leaves place more bound (a, rest) (a, rest')

section

variable {place : Nat → Nat} {more : List Token} {α β : Type}

theorem Agree.bind {related : α → α → Prop} {related' : β → β → Prop}
    {first second : Except ExprError α} {next next' : α → Except ExprError β}
    (agree : Agree place related first second)
    (later : ∀ a b, related a b → Agree place related' (next a) (next' b)) :
    Agree place related' (first >>= next) (second >>= next') := by
  cases agree with
  | ok same => exact later _ _ same
  | error => exact .error

theorem Agree.wider {bound bound' : Nat} {first second : Except ExprError (α × List Token)}
    (agree : Agree place (Leaves place more bound) first second) (wider : bound ≤ bound') :
    Agree place (Leaves place more bound') first second := by
  cases agree with
  | ok same =>
      cases same with
      | intro fewer alike => exact .ok (.intro (Nat.lt_of_lt_of_le fewer wider) alike)
  | error => exact .error

theorem alike_placed (front : List Token) (text : Text) (start : Nat) :
    Alike place more front.length (front ++ [⟨.finish, text, start⟩])
      (List.map (Token.placed place) (front ++ [⟨.finish, text, start⟩]) ++ more) := by
  induction front with
  | nil => exact .finish
  | cons token front ih =>
      obtain ⟨lexeme, text, start⟩ := token
      exact .token ih

end

section

variable {place : Nat → Nat} {more : List Token} {count : Nat} {tokens tokens' : List Token}
  (alike : Alike place more count tokens tokens')

include alike

theorem Alike.second_eq : tokens' = tokens.map (Token.placed place) ++ more := by
  induction alike with
  | finish => rfl
  | token later ih =>
      rw [ih]
      rfl

theorem Alike.length_eq : tokens.length = count + 1 := by
  induction alike with
  | finish => rfl
  | token later ih => rw [List.length_cons, ih]

theorem unexpected_agree {α : Type} {related : α → α → Prop} (message : String) :
    Agree place related (unexpected message tokens) (unexpected message tokens') := by
  cases alike with
  | finish => exact .error
  | token later => exact .error

theorem expect_agree (symbol : Symbol) :
    Agree place (fun rest rest' => ∃ left < count, Alike place more left rest rest')
      (expect symbol tokens) (expect symbol tokens') := by
  cases alike with
  | finish => exact .error
  | @token count lexeme text start rest rest' later =>
      cases lexeme with
      | operator found =>
          by_cases same : found = symbol
          · simp only [expect, same, if_true]
            exact .ok ⟨count, Nat.lt_succ_self count, later⟩
          · simp only [expect, same, if_false]
            exact .error
      | _ => exact .error

theorem operatorOf?_agree (level : List BinaryOp) :
    (operatorOf? level tokens = none ∧ operatorOf? level tokens' = none) ∨
      ∃ op left rest rest', left < count ∧ Alike place more left rest rest' ∧
        operatorOf? level tokens = some (op, rest) ∧
        operatorOf? level tokens' = some (op, rest') := by
  cases alike with
  | finish => exact .inl ⟨rfl, rfl⟩
  | @token count lexeme text start rest rest' later =>
      cases lexeme with
      | operator symbol =>
          simp only [operatorOf?]
          cases BinaryOp.ofSymbol? symbol with
          | none => exact .inl ⟨rfl, rfl⟩
          | some op =>
              by_cases member : level.contains op
              · simp only [member, if_true]
                exact .inr ⟨op, count, rest, rest', Nat.lt_succ_self count, later, rfl, rfl⟩
              · simp only [member]
                exact .inl ⟨rfl, rfl⟩
      | _ => exact .inl ⟨rfl, rfl⟩

end

theorem checkedCall_agree {place : Nat → Nat} (function : Function) (args : List Expr)
    (position : Nat) :
    Agree place (· = ·) (checkedCall function args position)
      (checkedCall function args (place position)) := by
  rw [checkedCall, checkedCall]
  split
  · exact .ok rfl
  · exact .error

theorem levels_length : BinaryOp.levels.length = 4 := by
  rfl

theorem levels_short : BinaryOp.levels.length ≤ 4 := by
  decide

/-- The parts of the parser agree where there are enough steps: ten for each token that is left, and
those that are needed in front of the first one. -/
structure AgreeWithin (place : Nat → Nat) (more : List Token) (fuel fuel' : Nat) : Prop where
  levels : ∀ {levels count tokens tokens'}, levels.length ≤ 4 →
    10 * count + levels.length + 3 ≤ min fuel fuel' → Alike place more count tokens tokens' →
      Agree place (Leaves place more count) (parseLevels fuel levels tokens)
        (parseLevels fuel' levels tokens')
  operands : ∀ {level tighter left count tokens tokens'}, tighter.length ≤ 4 →
    10 * count + 1 ≤ min fuel fuel' → Alike place more count tokens tokens' →
      Agree place (Leaves place more (count + 1)) (parseOperands fuel level tighter left tokens)
        (parseOperands fuel' level tighter left tokens')
  unary : ∀ {count tokens tokens'}, 10 * count + 2 ≤ min fuel fuel' →
    Alike place more count tokens tokens' →
      Agree place (Leaves place more count) (parseUnary fuel tokens) (parseUnary fuel' tokens')
  access : ∀ {target count tokens tokens'}, 10 * count + 1 ≤ min fuel fuel' →
    Alike place more count tokens tokens' →
      Agree place (Leaves place more (count + 1)) (parseAccess fuel target tokens)
        (parseAccess fuel' target tokens')
  primary : ∀ {count tokens tokens'}, 10 * count + 1 ≤ min fuel fuel' →
    Alike place more count tokens tokens' →
      Agree place (Leaves place more count) (parsePrimary fuel tokens) (parsePrimary fuel' tokens')
  args : ∀ {count tokens tokens'}, 10 * count + 8 ≤ min fuel fuel' →
    Alike place more count tokens tokens' →
      Agree place (Leaves place more count) (parseArgs fuel tokens) (parseArgs fuel' tokens')
  moreArgs : ∀ {count tokens tokens'}, 10 * count + 1 ≤ min fuel fuel' →
    Alike place more count tokens tokens' →
      Agree place (Leaves place more count) (parseMoreArgs fuel tokens)
        (parseMoreArgs fuel' tokens')

section

variable {place : Nat → Nat} {more : List Token} {fuel fuel' count : Nat}
  {tokens tokens' : List Token} (within : AgreeWithin place more fuel fuel')

include within

theorem levels_agree {levels : List (List BinaryOp)} (short : levels.length ≤ 4)
    (enough : 10 * count + levels.length + 3 ≤ min (fuel + 1) (fuel' + 1))
    (alike : Alike place more count tokens tokens') :
    Agree place (Leaves place more count) (parseLevels (fuel + 1) levels tokens)
      (parseLevels (fuel' + 1) levels tokens') := by
  cases levels with
  | nil =>
      rw [parseLevels, parseLevels]
      rw [List.length_nil] at enough
      exact within.unary (by omega) alike
  | cons level tighter =>
      rw [List.length_cons] at short enough
      rw [parseLevels, parseLevels]
      refine (within.levels (by omega) (by omega) alike).bind ?_
      rintro _ _ ⟨fewer, behind⟩
      exact (within.operands (by omega) (by omega) behind).wider fewer

theorem operands_agree {level : List BinaryOp} {tighter : List (List BinaryOp)} {left : Expr}
    (short : tighter.length ≤ 4) (enough : 10 * count + 1 ≤ min (fuel + 1) (fuel' + 1))
    (alike : Alike place more count tokens tokens') :
    Agree place (Leaves place more (count + 1)) (parseOperands (fuel + 1) level tighter left tokens)
      (parseOperands (fuel' + 1) level tighter left tokens') := by
  rw [parseOperands, parseOperands]
  rcases operatorOf?_agree alike level with ⟨absent, absent'⟩ |
    ⟨op, left, rest, rest', fewer, behind, found, found'⟩
  · rw [absent, absent']
    exact .ok (.intro (Nat.lt_succ_self count) alike)
  · rw [found, found']
    refine (within.levels short (by omega) behind).bind ?_
    rintro _ _ ⟨fewer', behind'⟩
    exact (within.operands short (by omega) behind').wider (by omega)

theorem unary_agree (enough : 10 * count + 2 ≤ min (fuel + 1) (fuel' + 1))
    (alike : Alike place more count tokens tokens') :
    Agree place (Leaves place more count) (parseUnary (fuel + 1) tokens)
      (parseUnary (fuel' + 1) tokens') := by
  have access : Agree place (Leaves place more count)
      (parsePrimary fuel tokens >>= fun primary => parseAccess fuel primary.1 primary.2)
      (parsePrimary fuel' tokens' >>= fun primary => parseAccess fuel' primary.1 primary.2) := by
    refine (within.primary (by omega) alike).bind ?_
    rintro _ _ ⟨fewer, behind⟩
    exact (within.access (by omega) behind).wider fewer
  cases alike with
  | finish => exact access
  | @token count lexeme text start rest rest' later =>
      cases lexeme with
      | operator symbol =>
          cases symbol with
          | not =>
              refine (within.unary (by omega) later).bind ?_
              rintro _ _ ⟨fewer, behind⟩
              exact .ok (.intro (by omega) behind)
          | _ => exact access
      | _ => exact access

theorem access_agree {target : Expr} (enough : 10 * count + 1 ≤ min (fuel + 1) (fuel' + 1))
    (alike : Alike place more count tokens tokens') :
    Agree place (Leaves place more (count + 1)) (parseAccess (fuel + 1) target tokens)
      (parseAccess (fuel' + 1) target tokens') := by
  have stays : Agree place (Leaves place more (count + 1)) (.ok (target, tokens))
      (.ok (target, tokens')) :=
    .ok (.intro (Nat.lt_succ_self count) alike)
  cases alike with
  | finish => exact stays
  | @token count lexeme text start rest rest' later =>
      cases lexeme with
      | operator symbol =>
          cases symbol with
          | dot =>
              cases later with
              | finish => exact .error
              | @token count lexeme text start rest rest' later =>
                  cases lexeme with
                  | identifier => exact (within.access (by omega) later).wider (by omega)
                  | _ => exact .error
          | openBracket =>
              refine (within.levels levels_short (by rw [levels_length]; omega) later).bind ?_
              rintro _ _ ⟨fewer, behind⟩
              refine (expect_agree behind .closeBracket).bind ?_
              rintro _ _ ⟨left, fewer', behind'⟩
              exact (within.access (by omega) behind').wider (by omega)
          | _ => exact stays
      | _ => exact stays

theorem primary_agree (enough : 10 * count + 1 ≤ min (fuel + 1) (fuel' + 1))
    (alike : Alike place more count tokens tokens') :
    Agree place (Leaves place more count) (parsePrimary (fuel + 1) tokens)
      (parsePrimary (fuel' + 1) tokens') := by
  have astray : Agree place (Leaves place more count)
      (unexpected "Expected an expression" tokens : Except ExprError (Expr × List Token))
      (unexpected "Expected an expression" tokens') := unexpected_agree alike _
  cases alike with
  | finish => exact astray
  | @token count lexeme text start rest rest' later =>
      cases lexeme with
      | number value => exact .ok (.intro (Nat.lt_succ_self count) later)
      | string value => exact .ok (.intro (Nat.lt_succ_self count) later)
      | finish => exact astray
      | operator symbol =>
          cases symbol with
          | openParen =>
              refine (within.levels levels_short (by rw [levels_length]; omega) later).bind ?_
              rintro _ _ ⟨fewer, behind⟩
              refine (expect_agree behind .closeParen).bind ?_
              rintro _ _ ⟨left, fewer', behind'⟩
              exact .ok (.intro (by omega) behind')
          | _ => exact astray
      | identifier =>
          have named : Agree place (Leaves place more (count + 1)) (.ok (ofName text, rest))
              (.ok (ofName text, rest')) := .ok (.intro (Nat.lt_succ_self count) later)
          cases later with
          | finish => exact named
          | @token count lexeme next start' rest rest' later =>
              cases lexeme with
              | operator symbol =>
                  cases symbol with
                  | openParen =>
                      rw [parsePrimary, parsePrimary]
                      cases Function.find? text with
                      | none => exact .error
                      | some function =>
                          refine (within.args (by omega) later).bind ?_
                          rintro ⟨args, _⟩ _ ⟨fewer, behind⟩
                          refine (checkedCall_agree function args start).bind ?_
                          rintro call _ rfl
                          exact .ok (.intro (by omega) behind)
                  | _ => exact named
              | _ => exact named

theorem args_agree (enough : 10 * count + 8 ≤ min (fuel + 1) (fuel' + 1))
    (alike : Alike place more count tokens tokens') :
    Agree place (Leaves place more count) (parseArgs (fuel + 1) tokens)
      (parseArgs (fuel' + 1) tokens') := by
  have several : Agree place (Leaves place more count)
      (parseLevels fuel BinaryOp.levels tokens >>= fun first =>
        parseMoreArgs fuel first.2 >>= fun others => pure (first.1 :: others.1, others.2))
      (parseLevels fuel' BinaryOp.levels tokens' >>= fun first =>
        parseMoreArgs fuel' first.2 >>= fun others => pure (first.1 :: others.1, others.2)) := by
    refine (within.levels levels_short (by rw [levels_length]; omega) alike).bind ?_
    rintro _ _ ⟨fewer, behind⟩
    refine (within.moreArgs (by omega) behind).bind ?_
    rintro _ _ ⟨fewer', behind'⟩
    exact .ok (.intro (by omega) behind')
  cases alike with
  | finish => exact several
  | @token count lexeme text start rest rest' later =>
      cases lexeme with
      | operator symbol =>
          cases symbol with
          | closeParen => exact .ok (.intro (Nat.lt_succ_self count) later)
          | _ => exact several
      | _ => exact several

theorem moreArgs_agree (enough : 10 * count + 1 ≤ min (fuel + 1) (fuel' + 1))
    (alike : Alike place more count tokens tokens') :
    Agree place (Leaves place more count) (parseMoreArgs (fuel + 1) tokens)
      (parseMoreArgs (fuel' + 1) tokens') := by
  have closed : Agree place (Leaves place more count)
      (expect .closeParen tokens >>= fun after => pure (([] : List Expr), after))
      (expect .closeParen tokens' >>= fun after => pure (([] : List Expr), after)) := by
    refine (expect_agree alike .closeParen).bind ?_
    rintro _ _ ⟨left, fewer, behind⟩
    exact .ok (.intro fewer behind)
  cases alike with
  | finish => exact closed
  | @token count lexeme text start rest rest' later =>
      cases lexeme with
      | operator symbol =>
          cases symbol with
          | comma =>
              refine (within.levels levels_short (by rw [levels_length]; omega) later).bind ?_
              rintro _ _ ⟨fewer, behind⟩
              refine (within.moreArgs (by omega) behind).bind ?_
              rintro _ _ ⟨fewer', behind'⟩
              exact .ok (.intro (by omega) behind')
          | _ => exact closed
      | _ => exact closed

end

theorem agreeWithin (place : Nat → Nat) (more : List Token) (fuel fuel' : Nat) :
    AgreeWithin place more fuel fuel' := by
  induction fuel generalizing fuel' with
  | zero => constructor <;> intros <;> omega
  | succ fuel ih =>
      cases fuel' with
      | zero => constructor <;> intros <;> omega
      | succ fuel' =>
          exact
            { levels := levels_agree (ih fuel')
              operands := operands_agree (ih fuel')
              unary := unary_agree (ih fuel')
              access := access_agree (ih fuel')
              primary := primary_agree (ih fuel')
              args := args_agree (ih fuel')
              moreArgs := moreArgs_agree (ih fuel') }

theorem parseLevels_agree {place : Nat → Nat} {more : List Token} {fuel fuel' count : Nat}
    {tokens tokens' : List Token} (alike : Alike place more count tokens tokens')
    (enough : parseFuel tokens ≤ min fuel fuel') :
    Agree place (Leaves place more count) (parseLevels fuel BinaryOp.levels tokens)
      (parseLevels fuel' BinaryOp.levels tokens') := by
  rw [parseFuel, alike.length_eq] at enough
  exact (agreeWithin place more fuel fuel').levels levels_short (by rw [levels_length]; omega) alike

theorem ofTokens_agree {place : Nat → Nat} {count : Nat} {tokens tokens' : List Token}
    (alike : Alike place [] count tokens tokens') :
    Agree place (· = ·) (ofTokens tokens) (ofTokens tokens') := by
  have length := alike.length_eq
  have length' : tokens'.length = count + 1 := by simp [alike.second_eq, length]
  cases count with
  | zero =>
      cases alike with
      | finish => exact .error
  | succ count =>
      have several (text : Text) (start : Nat) : tokens ≠ [⟨.finish, text, start⟩] := by
        rintro rfl
        cases length
      have several' (text : Text) (start : Nat) : tokens' ≠ [⟨.finish, text, start⟩] := by
        rintro rfl
        cases length'
      have enough : parseFuel tokens ≤ min (parseFuel tokens) (parseFuel tokens') := by
        simp [parseFuel, length, length']
      rw [ofTokens.eq_2 tokens several, ofTokens.eq_2 tokens' several']
      refine (parseLevels_agree alike enough).bind ?_
      rintro _ _ ⟨fewer, behind⟩
      cases behind with
      | finish => exact .ok rfl
      | @token _ lexeme _ _ _ _ later =>
          cases lexeme with
          | finish => exact .ok rfl
          | _ => exact .error

end Expr

end Flowfile
