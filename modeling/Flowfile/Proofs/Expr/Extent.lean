import Flowfile.Proofs.Expr.Quoting

/-! Where the tokens of a source stand in it.

Tokens with blanks between them make up the source from its first character to its last. The
relation `Laid` says so step by step, as the source is read, and everything else about the places of
tokens follows from it by induction. -/

namespace Flowfile.Token

def stop (token : Token) : Nat := token.start + token.text.length

structure Written (lexeme : Lexeme) (text : Text) : Prop where
  before : lexeme ≠ .finish
  nonempty : text ≠ []
  quoted : ∀ value, lexeme = .string value → text = Grammar.quoted value

/-- From a position on, the text consists of the tokens and of blanks. -/
inductive Laid : Nat → Text → List Token → Prop
  | finish {position} : Laid position [] [⟨.finish, [], position⟩]
  | blank {position c rest tokens} (blank : Text.isBlank c = true)
      (later : Laid (position + 1) rest tokens) : Laid position (c :: rest) tokens
  | token {position lexeme text rest tokens} (written : Written lexeme text)
      (later : Laid (position + text.length) rest tokens) :
      Laid position (text ++ rest) (⟨lexeme, text, position⟩ :: tokens)

/-- The tokens take up the source: in order and apart from each other, each with its own characters,
and with nothing but blanks outside of them. -/
structure Covers (source : Text) (tokens : List Token) : Prop where
  finish : ∃ front, tokens = front ++ [⟨.finish, [], source.length⟩] ∧
    ∀ token ∈ front, token.lexeme ≠ .finish
  ordered : tokens.Pairwise fun first second => first.start < second.start
  apart : tokens.Pairwise fun first second => first.stop ≤ second.start
  text : ∀ token ∈ tokens, token.lexeme ≠ .finish →
    token.text ≠ [] ∧ token.text = source.slice token.start token.stop
  blank : ∀ position c, source[position]? = some c →
    (∀ token ∈ tokens, ¬(token.start ≤ position ∧ position < token.stop)) →
      Text.isBlank c = true
  quoted : ∀ token ∈ tokens, ∀ value, token.lexeme = .string value →
    token.text = Grammar.quoted value

section

variable {position : Nat} {text : Text} {tokens : List Token}

theorem Laid.placed (laid : Laid position text tokens) {token : Token} (member : token ∈ tokens) :
    ∃ before after, text = before ++ (token.text ++ after) ∧
      token.start = position + before.length := by
  induction laid with
  | finish =>
      cases List.mem_singleton.mp member
      exact ⟨[], [], rfl, rfl⟩
  | @blank position c rest tokens blank later ih =>
      obtain ⟨before, after, rfl, start⟩ := ih member
      refine ⟨c :: before, after, rfl, ?_⟩
      rw [start, List.length_cons]
      omega
  | @token position lexeme text rest tokens written later ih =>
      rcases List.mem_cons.mp member with rfl | member
      · exact ⟨[], rest, rfl, rfl⟩
      · obtain ⟨before, after, rfl, start⟩ := ih member
        refine ⟨text ++ before, after, by simp, ?_⟩
        rw [start, List.length_append]
        omega

theorem Laid.start_ge (laid : Laid position text tokens) {token : Token}
    (member : token ∈ tokens) : position ≤ token.start := by
  obtain ⟨before, after, -, start⟩ := laid.placed member
  omega

theorem Laid.pairwise (laid : Laid position text tokens) :
    tokens.Pairwise fun first second => first.stop ≤ second.start ∧ first.start < second.start := by
  induction laid with
  | finish => exact List.pairwise_singleton _ _
  | blank _ _ ih => exact ih
  | @token position lexeme text rest tokens written later ih =>
      refine List.pairwise_cons.mpr ⟨fun next member => ?_, ih⟩
      have behind := later.start_ge member
      have positive := List.length_pos_iff.mpr written.nonempty
      change position + text.length ≤ next.start ∧ position < next.start
      omega

theorem Laid.last (laid : Laid position text tokens) :
    ∃ front, tokens = front ++ [⟨.finish, [], position + text.length⟩] ∧
      ∀ token ∈ front, Written token.lexeme token.text := by
  induction laid with
  | finish => exact ⟨[], rfl, by simp⟩
  | @blank position c rest tokens blank later ih =>
      obtain ⟨front, rfl, written⟩ := ih
      refine ⟨front, ?_, written⟩
      rw [List.length_cons, Nat.add_assoc, Nat.add_comm 1]
  | @token position lexeme text rest tokens written later ih =>
      obtain ⟨front, rfl, others⟩ := ih
      refine ⟨⟨lexeme, text, position⟩ :: front, ?_, List.forall_mem_cons.mpr ⟨written, others⟩⟩
      rw [List.length_append, Nat.add_assoc, List.cons_append]

theorem Laid.written (laid : Laid position text tokens) {token : Token} (member : token ∈ tokens)
    (before : token.lexeme ≠ .finish) : Written token.lexeme token.text := by
  obtain ⟨front, rfl, written⟩ := laid.last
  rcases List.mem_append.mp member with front | last
  · exact written token front
  · cases List.mem_singleton.mp last
    exact absurd rfl before

theorem Laid.blank_or_within (laid : Laid position text tokens) {offset : Nat} {c : Char}
    (here : text[offset]? = some c) :
    Text.isBlank c = true ∨
      ∃ token ∈ tokens, token.start ≤ position + offset ∧ position + offset < token.stop := by
  induction laid generalizing offset with
  | finish => simp at here
  | @blank position first rest tokens blank later ih =>
      cases offset with
      | zero =>
          cases here
          exact .inl blank
      | succ offset =>
          rw [Nat.add_comm offset, ← Nat.add_assoc]
          exact ih here
  | @token position lexeme text rest tokens written later ih =>
      by_cases within : offset < text.length
      · refine .inr ⟨_, List.mem_cons_self, Nat.le_add_right position offset, ?_⟩
        exact Nat.add_lt_add_left within position
      · obtain ⟨further, rfl⟩ := Nat.exists_eq_add_of_le (Nat.le_of_not_lt within)
        rw [List.getElem?_append_right (Nat.le_add_right _ _), Nat.add_sub_cancel_left] at here
        rw [← Nat.add_assoc]
        refine (ih here).imp_right ?_
        rintro ⟨token, member, within⟩
        exact ⟨token, List.mem_cons_of_mem _ member, within⟩

theorem covers_of_laid (laid : Laid 0 text tokens) : Covers text tokens where
  finish := by
    obtain ⟨front, whole, written⟩ := laid.last
    rw [Nat.zero_add] at whole
    exact ⟨front, whole, fun token member => (written token member).before⟩
  ordered := laid.pairwise.imp And.right
  apart := laid.pairwise.imp And.left
  text token member before := by
    refine ⟨(laid.written member before).nonempty, ?_⟩
    obtain ⟨front, after, rfl, start⟩ := laid.placed member
    rw [Nat.zero_add] at start
    simp [Text.slice, stop, start]
  blank position c here outside := by
    rcases laid.blank_or_within here with blank | ⟨token, member, within⟩
    · exact blank
    · rw [Nat.zero_add] at within
      exact absurd within (outside token member)
  quoted token member value string := by
    refine (laid.written member ?_).quoted value string
    rw [string]
    exact Lexeme.noConfusion

end

theorem readQuoted?_take {rest value : Text} {size : Nat}
    (read : readQuoted? rest = some (value, size)) :
    rest.take size = Grammar.doubled value ++ ['\''] := by
  fun_induction readQuoted? rest generalizing value size with
  | case1 => cases read
  | case2 rest ih =>
      obtain ⟨⟨inner, length⟩, found, same⟩ := Option.map_eq_some_iff.mp read
      cases same
      simp [ih found]
  | case3 rest single =>
      cases read
      rfl
  | case4 c rest double other ih =>
      obtain ⟨⟨inner, length⟩, found, same⟩ := Option.map_eq_some_iff.mp read
      cases same
      simp [ih found, Grammar.doubled_cons other]

theorem readLexeme_written {operandExpected : Bool} {c : Char} {rest : Text} {lexeme : Lexeme}
    {size : Nat} (read : readLexeme operandExpected c rest = .ok (lexeme, size)) :
    0 < size ∧ Written lexeme ((c :: rest).take size) := by
  have positive : 0 < size := (Template.readLexeme_parity _ c rest lexeme size read).1
  have nonempty : (c :: rest).take size ≠ [] := by simp [Nat.ne_of_gt positive]
  refine ⟨positive, ?_⟩
  rcases Grammar.readLexeme_cases read with ⟨value, inner, rfl, found, rfl, rfl⟩ |
    ⟨-, -, rfl⟩ | ⟨-, rfl, -⟩ | ⟨symbol, rfl, -⟩
  · refine ⟨Lexeme.noConfusion, nonempty, fun other same => ?_⟩
    cases same
    rw [List.take_succ_cons, readQuoted?_take found, Grammar.quoted]
  all_goals exact ⟨Lexeme.noConfusion, nonempty, fun _ same => Lexeme.noConfusion same⟩

theorem readLexeme_size {operandExpected : Bool} {c : Char} {rest : Text} {lexeme : Lexeme}
    {size : Nat} (read : readLexeme operandExpected c rest = .ok (lexeme, size)) :
    0 < size ∧ size ≤ rest.length + 1 := by
  refine ⟨(readLexeme_written read).1, ?_⟩
  rcases Grammar.readLexeme_cases read with ⟨value, inner, -, found, -, rfl⟩ |
    ⟨rfl, -, -⟩ | ⟨-, -, rfl⟩ | ⟨symbol, -, leads, rfl⟩
  · exact Nat.succ_le_succ (Template.readQuoted?_eq_some rest value inner found).1
  · exact numberLength_le_length (c :: rest)
  · exact (List.takeWhile_prefix _).length_le
  · exact leads.length_le

/-- From a position on, behind the last lexeme before it, the text is read as the tokens. -/
inductive Lexed : Nat → Option Lexeme → Text → List Token → Prop
  | finish {position before} : Lexed position before [] [⟨.finish, [], position⟩]
  | blank {position before c rest tokens} (blank : Text.isBlank c = true)
      (later : Lexed (position + 1) before rest tokens) : Lexed position before (c :: rest) tokens
  | token {position before lexeme c text rest tokens} (solid : Text.isBlank c = false)
      (read : readLexeme (before.all Lexeme.opensOperand) c (text ++ rest) =
        .ok (lexeme, text.length + 1))
      (later : Lexed (position + (c :: text).length) (some lexeme) rest tokens) :
      Lexed position before (c :: (text ++ rest)) (⟨lexeme, c :: text, position⟩ :: tokens)

theorem lexed_of_readFrom {position skip : Nat} {before : Option Lexeme} {text : Text}
    {tokens : List Token} (read : readFrom position before skip text = .ok tokens) :
    Lexed (position + (text.take skip).length) before (text.drop skip) tokens := by
  fun_induction readFrom position before skip text generalizing tokens with
  | case1 position =>
      cases read
      simpa using Lexed.finish
  | case2 position before skip c rest ih =>
      have later := ih read
      rwa [Nat.add_assoc, Nat.add_comm 1] at later
  | case3 position before c rest blank ih => exact .blank blank (ih read)
  | case4 => cases read
  | case5 => cases read
  | case6 position before c rest solid =>
      rename_i operandExpected lexeme size lexed later done ih
      cases read
      obtain ⟨positive, within⟩ := readLexeme_size lexed
      obtain ⟨passed, more, rfl, length⟩ : ∃ passed more, rest = passed ++ more ∧
          size = passed.length + 1 := by
        refine ⟨rest.take (size - 1), rest.drop (size - 1), by simp, ?_⟩
        rw [List.length_take]
        omega
      have expected : operandExpected = before.all Lexeme.opensOperand := by
        cases before <;> rfl
      have whole : (c :: (passed ++ more)).take (passed.length + 1) = c :: passed := by simp
      have behind := ih done
      rw [length, Nat.add_sub_cancel, List.take_left, List.drop_left, Nat.add_right_comm] at behind
      rw [length, expected] at lexed
      rw [length, whole]
      exact .token (Bool.eq_false_iff.mpr solid) lexed behind

theorem laid_of_lexed {position : Nat} {before : Option Lexeme} {text : Text}
    {tokens : List Token} (lexed : Lexed position before text tokens) :
    Laid position text tokens := by
  induction lexed with
  | finish => exact .finish
  | blank blank _ ih => exact .blank blank ih
  | token solid read later ih =>
      have written := (readLexeme_written read).2
      rw [List.take_succ_cons, List.take_left] at written
      exact .token written ih

theorem lexed_of_readAll {source : Text} {tokens : List Token}
    (read : readAll source = .ok tokens) : Lexed 0 none source tokens :=
  lexed_of_readFrom read

theorem position_of_readFrom {position skip : Nat} {before : Option Lexeme} {text : Text}
    {problem : ExprError} (read : readFrom position before skip text = .error problem) :
    problem.position < position + text.length := by
  fun_induction readFrom position before skip text with
  | case1 => cases read
  | case2 _ _ _ _ _ ih | case3 _ _ _ _ _ ih =>
      have inside := ih read
      rw [List.length_cons]
      omega
  | case4 =>
      cases read
      simp
  | case5 position before c rest solid operandExpected lexeme size lexed failure failed ih =>
      cases read
      have inside := ih failed
      rw [List.length_cons]
      omega
  | case6 => cases read

/-- A source is split into tokens that take it up, or there is a character that starts none. -/
theorem readAll_covers (source : Text) :
    (∃ tokens, readAll source = .ok tokens ∧ Covers source tokens) ∨
      ∃ problem, readAll source = .error problem ∧ problem.position < source.length := by
  cases read : readAll source with
  | ok tokens =>
      have laid := laid_of_lexed (lexed_of_readAll read)
      exact .inl ⟨tokens, rfl, covers_of_laid laid⟩
  | error problem =>
      have inside := position_of_readFrom read
      rw [Nat.zero_add] at inside
      exact .inr ⟨problem, rfl, inside⟩

end Flowfile.Token
