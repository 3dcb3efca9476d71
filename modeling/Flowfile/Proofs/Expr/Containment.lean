import Flowfile.Proofs.Expr.Bounds
import Flowfile.Proofs.Expr.Nesting
import Flowfile.Proofs.Expr.Printing

/-! What parsing with a limit on the calls comes to.

Unless the calls are nested too deep, there is an expression with calls that are fit to be made or
an error within the source. -/

namespace Flowfile

namespace Expr

open Grammar

/-- More calls would have to be under way at once than there may be. -/
def TooDeep (limit : Nat) (source : Text) : Prop :=
  ∃ tokens, Token.readAll source = .ok tokens ∧ tokens.length ≠ 1 ∧
    Exceeds (.ofLevels BinaryOp.levels) tokens limit

theorem levelsWithin_eq_tooDeep (limit : Nat) (tokens : List Token) :
    levelsWithin (parseFuel tokens) limit BinaryOp.levels tokens = .error .tooDeep ↔
      Exceeds (.ofLevels BinaryOp.levels) tokens limit := by
  refine ⟨(deep_within _).levels, fun exceeds => ?_⟩
  refine (fails_within _).levels (List.suffix_refl _) ?_ exceeds
  rw [levels_length, parseFuel]
  omega

theorem ofTokensWithin_several {tokens : List Token} (several : tokens.length ≠ 1) (limit : Nat) :
    Follows (ofTokensWithin limit tokens) (ofTokens tokens) ∧
      (ofTokensWithin limit tokens = .error .tooDeep ↔
        Exceeds (.ofLevels BinaryOp.levels) tokens limit) := by
  have other (text : Text) (start : Nat) : tokens ≠ [⟨.finish, text, start⟩] := by
    rintro rfl
    exact several rfl
  rw [ofTokensWithin.eq_2 limit tokens other, ofTokens.eq_2 tokens other]
  constructor
  · refine ((follows_within _).levels limit BinaryOp.levels tokens).bind ?_
    rintro ⟨e, rest⟩
    rcases rest with _ | ⟨⟨lexeme, text, start⟩, rest⟩
    · exact .inr rfl
    · cases lexeme <;> exact .inr rfl
  · rw [← levelsWithin_eq_tooDeep, bind_eq_error]
    refine ⟨?_, .inl⟩
    rintro (failed | ⟨⟨e, rest⟩, -, failed⟩)
    · exact failed
    · rcases rest with _ | ⟨⟨lexeme, text, start⟩, rest⟩
      · exact absurd failed (rejecting_ne_tooDeep (unexpected "Unexpected token" _))
      · cases lexeme with
        | finish => cases failed
        | _ => exact absurd failed (rejecting_ne_tooDeep (unexpected "Unexpected token" _))

theorem parseWithin_follows (limit : Nat) (source : Text) :
    Follows (parseWithin limit source) (parse source) ∧
      (parseWithin limit source = .error .tooDeep ↔ TooDeep limit source) := by
  rcases read : Token.readAll source with error | tokens
  · have failed : parseWithin limit source = .error (.rejected error) := by
      rw [parseWithin, read]
      rfl
    have rejected : parse source = .error error := by
      rw [parse, read]
      rfl
    rw [failed, rejected]
    refine ⟨.inr rfl, iff_of_false ?_ ?_⟩
    · rintro ⟨⟩
    · rintro ⟨tokens, found, -⟩
      rw [read] at found
      cases found
  · have limited : parseWithin limit source = ofTokensWithin limit tokens := by
      rw [parseWithin, read]
      rfl
    have ideal : parse source = ofTokens tokens := by
      rw [parse, read]
      rfl
    have same : TooDeep limit source ↔
        tokens.length ≠ 1 ∧ Exceeds (.ofLevels BinaryOp.levels) tokens limit := by
      constructor
      · rintro ⟨_, found, several, exceeds⟩
        rw [read] at found
        cases found
        exact ⟨several, exceeds⟩
      · rintro ⟨several, exceeds⟩
        exact ⟨tokens, read, several, exceeds⟩
    rw [limited, ideal, same]
    by_cases several : tokens.length ≠ 1
    · obtain ⟨follows, deep⟩ := ofTokensWithin_several several limit
      exact ⟨follows, deep.trans (and_iff_right several).symm⟩
    · obtain ⟨front, rfl, -⟩ := (Token.laid_of_lexed (Token.lexed_of_readAll read)).last
      have bare : front = [] := by simpa using several
      subst bare
      refine ⟨.inr rfl, iff_of_false ?_ fun deep => deep.1 rfl⟩
      rintro ⟨⟩

/-- Parsing comes to an expression with calls that are fit to be made or to an error within the
source, and does not leave the tokens. -/
structure Contained (limit : Nat) (source : Text) : Prop where
  outcome :
    (∃ e, parseWithin limit source = .ok e ∧ ∀ call ∈ e.calls, call.1.Accepts call.2.length) ∨
      ∃ error, parseWithin limit source = .error (.rejected error) ∧
        error.position ≤ source.length
  stays : ∀ tokens, Token.readAll source = .ok tokens → StaysWithin tokens

theorem contained_iff (limit : Nat) (source : Text) :
    Contained limit source ↔ ¬TooDeep limit source := by
  obtain ⟨follows, deep⟩ := parseWithin_follows limit source
  obtain ⟨within, tokens⟩ := parse_stays_within source
  refine ⟨?_, fun shallow => ?_⟩
  · rintro ⟨⟨e, found, -⟩ | ⟨error, found, -⟩, -⟩ exceeds
    · rw [deep.mpr exceeds] at found
      cases found
    · rw [deep.mpr exceeds] at found
      cases found
  · have same := follows.resolve_left fun failed => shallow (deep.mp failed)
    refine ⟨?_, fun tokens' read => by rwa [read] at tokens⟩
    rw [same]
    rcases found : parse source with error | e
    · rw [found] at within
      exact .inr ⟨error, rfl, within⟩
    · rw [found] at within
      exact .inl ⟨e, rfl, within⟩

/-- Parsing is contained exactly where the calls are not nested too deep. It then has the outcome
that it has without a limit. -/
theorem parse_contained_iff (limit : Nat) (source : Text) :
    (Contained limit source ↔ ¬TooDeep limit source) ∧
      (parseWithin limit source = .error .tooDeep ↔ TooDeep limit source) ∧
      (TooDeep limit source ∨ parseWithin limit source = rejecting (parse source)) := by
  obtain ⟨follows, deep⟩ := parseWithin_follows limit source
  exact ⟨contained_iff limit source, deep, follows.imp_left deep.mp⟩

theorem not_tooDeep {limit : Nat} {source : Text} {tokens : List Token}
    (read : Token.readAll source = .ok tokens)
    (few : 8 * (openings tokens + 1) + negations tokens ≤ limit) : ¬TooDeep limit source := by
  rintro ⟨_, read', -, exceeds⟩
  rw [read] at read'
  cases read'
  have bound := exceeds.lt
  rw [height_ofLevels, levels_length] at bound
  omega

/-! How deep the calls are nested in what is written in parentheses. -/

theorem Exceeds.fewer {procedure : Procedure} {tokens : List Token} {calls fewer : Nat}
    (exceeds : Exceeds procedure tokens calls) (le : fewer ≤ calls) :
    Exceeds procedure tokens fewer := by
  induction exceeds generalizing fewer with
  | here =>
      rw [Nat.le_zero.mp le]
      exact .here
  | inside enters _ ih =>
      cases fewer with
      | zero => exact .here
      | succ fewer => exact .inside enters (ih (Nat.le_of_succ_le_succ le))

theorem exceeds_levels {tokens : List Token} {calls : Nat}
    (other : ∀ rest, ¬Spells tokens [.symbol .not] rest) (exceeds : Exceeds .primary tokens calls) :
    Exceeds (.ofLevels BinaryOp.levels) tokens (calls + 6) :=
  .inside .first <| .inside .first <| .inside .first <| .inside .first <|
    .inside (.operand other) <| .inside .head exceeds

theorem primary_not_not (p : Primary) {tokens rest : List Token}
    (spelled : Spells tokens p.words rest) (after : List Token) :
    ¬Spells tokens [.symbol .not] after := by
  intro negated
  obtain ⟨word, words, same, opening, -⟩ := primary_opening p
  rw [same] at spelled
  exact opening (spells_head_eq spelled negated).1

def enclosedTimes (text : Text) : Nat → Text
  | 0 => text
  | count + 1 => enclosed (enclosedTimes text count)

theorem Exceeds.group {p : Primary} {phrase : Phrase BinaryOp.levels} {calls : Nat}
    (words : phrase.words = p.words)
    (exceeds : ∀ {tokens rest}, Spells tokens p.words rest → Exceeds .primary tokens calls)
    {tokens rest : List Token} (spelled : Spells tokens (Primary.group phrase).words rest) :
    Exceeds .primary tokens (calls + 7) := by
  rw [Primary.words, words] at spelled
  obtain ⟨text, start, more, rfl, tail⟩ := spells_symbol spelled
  obtain ⟨middle, front, -⟩ := (spells_append _ _ _ _).mp tail
  refine .inside (.group (spells_here .openParen text start more)) ?_
  exact exceeds_levels (primary_not_not p front) (exceeds front)

section

variable {p : Primary} {text : Text} {after : Option Lexeme}
  (inner : Reads (Ahead (· = ')')) opened text p.words after)

include inner

/-- Each pair of parentheses takes up seven calls. -/
theorem exists_enclosed (count : Nat) :
    ∃ q : Primary, q.expr = p.expr ∧
      (∀ before, Reads Anything before (enclosedTimes text (count + 1)) q.words closed) ∧
      ∀ {tokens rest}, Spells tokens q.words rest → Exceeds .primary tokens (7 * (count + 1)) := by
  induction count with
  | zero =>
      obtain ⟨phrase, words, expr⟩ := exists_primary BinaryOp.levels p
      refine ⟨.group phrase, expr, fun before => ?_, .group words fun _ => .here⟩
      rw [Primary.words, words]
      exact reads_enclosed inner before
  | succ count ih =>
      obtain ⟨q, built, reads, exceeds⟩ := ih
      obtain ⟨phrase, words, expr⟩ := exists_primary BinaryOp.levels q
      refine ⟨.group phrase, expr.trans built, fun before => ?_, .group words exceeds⟩
      rw [Primary.words, words]
      exact reads_enclosed (reads_weaker (reads opened) fun _ _ => trivial) before

theorem tooDeep_enclosed {count limit : Nat} (few : limit < 7 * (count + 2)) :
    TooDeep limit (enclosedTimes text (count + 1)) ∧
      parse (enclosedTimes text (count + 1)) = .ok p.expr := by
  obtain ⟨q, built, reads, exceeds⟩ := exists_enclosed inner count
  obtain ⟨phrase, words, expr⟩ := exists_primary BinaryOp.levels q
  constructor
  · obtain ⟨tokens, last, -, same, read⟩ := readAll_of_reads (reads none) trivial
    have spelled : Spells (tokens ++ [last]) q.words [last] :=
      (spells_iff _ _ _).mpr ⟨tokens, rfl, same⟩
    have length := spells_length spelled
    have positive := primary_words_pos q
    rw [List.length_singleton] at length
    refine ⟨tokens ++ [last], read, by omega, ?_⟩
    exact (exceeds_levels (primary_not_not q spelled) (exceeds spelled)).fewer (by omega)
  · have read : Reads Anything none (enclosedTimes text (count + 1)) phrase.words closed :=
      words ▸ reads none
    rw [parse_of_reads phrase read trivial, expr, built]

end

/-- With a thousand calls, parsing fails for a number in 150 parentheses, which the grammar has. -/
theorem parse_escapes :
    ¬Contained 1000 (enclosedTimes ['1'] 150) ∧
      parse (enclosedTimes ['1'] 150) = .ok (.literal (.number (.int 1))) := by
  have reads : Reads (Ahead (· = ')')) opened ['1'] (Primary.number (.int 1)).words
      (some (.number (.int 1))) := by
    refine reads_weaker (@reads_int opened rfl 1 (by decide)) ?_
    rintro _ ⟨c, more, rfl, rfl⟩ first same
    cases same
    decide
  have few : 1000 < 7 * (149 + 2) := by decide
  obtain ⟨deep, parsed⟩ := tooDeep_enclosed reads few
  exact ⟨fun contained => (contained_iff 1000 _).mp contained deep, parsed⟩

end Expr

end Flowfile
