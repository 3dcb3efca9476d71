import Flowfile.Proofs.Expr.Arity
import Flowfile.Proofs.Expr.Extent
import Flowfile.Proofs.Expr.Simulation

/-! The parser stays within its source and its errors.

It comes to an end before the steps run out, passes over tokens before the end of the source only,
and fails at a token. The calls in what it returns are fit to be made. -/

namespace Flowfile

namespace Function

structure Accepts (function : Function) (count : Nat) : Prop where
  registered : find? function.name = some function
  admitted : function.admits count = true
  applies : ∀ args : List Value, args.length = count → function.apply args ≠ .error .arity

theorem accepts_of_admits {function : Function} {count : Nat}
    (admitted : function.admits count = true) : function.Accepts count where
  registered := (find?_eq_some function.name function).mpr rfl
  admitted := admitted
  applies args length failed := by
    rw [← length] at admitted
    refine apply_not_escapes function args .arity admitted failed ?_
    intro problem same
    cases same

end Function

namespace Expr

mutual

def calls : Expr → List (Function × List Expr)
  | .literal _ => []
  | .context _ => []
  | .property target _ => calls target
  | .index target key => calls target ++ calls key
  | .not operand => calls operand
  | .binary _ left right => calls left ++ calls right
  | .call function args => (function, args) :: callsOfArgs args

def callsOfArgs : List Expr → List (Function × List Expr)
  | [] => []
  | first :: rest => calls first ++ callsOfArgs rest

end

theorem mem_callsOfArgs {call : Function × List Expr} {args : List Expr}
    (member : call ∈ callsOfArgs args) : ∃ arg ∈ args, call ∈ arg.calls := by
  induction args with
  | nil => cases member
  | cons first rest ih =>
      rcases List.mem_append.mp member with here | later
      · exact ⟨first, List.mem_cons_self, here⟩
      · obtain ⟨arg, among, within⟩ := ih later
        exact ⟨arg, List.mem_cons_of_mem first among, within⟩

theorem Admitted.accepts {e : Expr} (admitted : e.Admitted) {call : Function × List Expr}
    (member : call ∈ e.calls) : call.1.Accepts call.2.length := by
  induction admitted with
  | literal | context => cases member
  | property _ ih | not _ ih => exact ih member
  | index _ _ ih ih' | binary _ _ ih ih' =>
      rcases List.mem_append.mp member with first | second
      · exact ih first
      · exact ih' second
  | call fits _ ih =>
      rcases List.mem_cons.mp member with rfl | inner
      · exact Function.accepts_of_admits fits
      · obtain ⟨arg, among, within⟩ := mem_callsOfArgs inner
        exact ih arg among within

structure StaysWithin (tokens : List Token) : Prop where
  /-- Neither more steps nor what stands behind the end of the source make a difference. -/
  settled : ∀ fuel more, parseFuel tokens ≤ fuel →
    parseLevels fuel BinaryOp.levels (tokens ++ more) =
      (parseLevels (parseFuel tokens) BinaryOp.levels tokens).map (Prod.map id (· ++ more))
  passed :
    match parseLevels (parseFuel tokens) BinaryOp.levels tokens with
    | .ok (_, rest) => rest ≠ [] ∧ ∃ before, tokens = before ++ rest ∧
        ∀ token ∈ before, token.lexeme ≠ .finish
    | .error error => ∃ token ∈ tokens, error.position = token.start

theorem map_placed_eq {place : Nat → Nat} {tokens : List Token}
    (stay : ∀ token ∈ tokens, place token.start = token.start) :
    tokens.map (Token.placed place) = tokens := by
  have same : ∀ token ∈ tokens, token.placed place = token := by
    intro token member
    rw [Token.placed, stay token member]
  rw [List.map_congr_left same, List.map_id']

theorem agree_eq_map {more : List Token} {bound : Nat} {α : Type}
    {first second : Except ExprError (α × List Token)}
    (agree : Agree id (Leaves id more bound) first second) :
    second = first.map (Prod.map id (· ++ more)) := by
  cases agree with
  | ok same =>
      cases same with
      | intro fewer alike =>
          have rest := alike.second_eq
          rw [map_placed_eq fun _ _ => rfl] at rest
          rw [rest]
          rfl
  | error => rfl

theorem Agree.position_eq {place : Nat → Nat} {α : Type} {related : α → α → Prop}
    {first second : Except ExprError α} {error error' : ExprError}
    (agree : Agree place related first second) (failed : first = .error error)
    (failed' : second = .error error') : error'.position = place error.position := by
  cases agree with
  | ok => cases failed
  | error =>
      cases failed
      cases failed'
      rfl

/-- An outcome that moves with the tokens fails at one of them: where all of them stay and every
other place moves, the error stays. -/
theorem position_of_agree {α : Type} {related : (Nat → Nat) → α → α → Prop} {tokens : List Token}
    {outcome : Except ExprError α} {error : ExprError} (failed : outcome = .error error)
    (agree : ∀ place : Nat → Nat, (∀ token ∈ tokens, place token.start = token.start) →
      Agree place (related place) outcome outcome) :
    ∃ token ∈ tokens, error.position = token.start := by
  let place (position : Nat) : Nat :=
    if position ∈ tokens.map Token.start then position else position + 1
  have stay : ∀ token ∈ tokens, place token.start = token.start := by
    intro token member
    exact if_pos (List.mem_map_of_mem member)
  have fixed : error.position = place error.position :=
    (agree place stay).position_eq failed failed
  by_cases known : error.position ∈ tokens.map Token.start
  · obtain ⟨token, member, same⟩ := List.mem_map.mp known
    exact ⟨token, member, same.symm⟩
  · simp only [place, known, if_false] at fixed
    omega

theorem before_of_spelled {used : List Token} {words : List Grammar.Word}
    (spelled : used.map Grammar.word? = words.map some) {token : Token} (member : token ∈ used) :
    token.lexeme ≠ .finish := by
  intro finish
  have wordless : Grammar.word? token = none := by rw [Grammar.word?, finish]
  have among : Grammar.word? token ∈ words.map some := by
    rw [← spelled]
    exact List.mem_map_of_mem member
  rw [wordless] at among
  simp at among

section

variable {tokens front : List Token} {text : Text} {start : Nat}
  (whole : tokens = front ++ [⟨.finish, text, start⟩])

include whole

theorem alike_self (more : List Token) {place : Nat → Nat}
    (stay : ∀ token ∈ tokens, place token.start = token.start) :
    Alike place more front.length tokens (tokens ++ more) := by
  have alike : Alike place more front.length tokens
      (tokens.map (Token.placed place) ++ more) := by
    rw [whole]
    exact alike_placed front text start
  rwa [map_placed_eq stay] at alike

theorem staysWithin_of_finish : StaysWithin tokens := by
  have agree {place : Nat → Nat} {fuel : Nat} (more : List Token)
      (stay : ∀ token ∈ tokens, place token.start = token.start)
      (enough : parseFuel tokens ≤ fuel) :
      Agree place (Leaves place more front.length)
        (parseLevels (parseFuel tokens) BinaryOp.levels tokens)
        (parseLevels fuel BinaryOp.levels (tokens ++ more)) :=
    parseLevels_agree (alike_self whole more stay) (by omega)
  have again {place : Nat → Nat} (stay : ∀ token ∈ tokens, place token.start = token.start) :
      Agree place (Leaves place [] front.length)
        (parseLevels (parseFuel tokens) BinaryOp.levels tokens)
        (parseLevels (parseFuel tokens) BinaryOp.levels tokens) := by
    have same := agree [] stay (Nat.le_refl _)
    rwa [List.append_nil] at same
  constructor
  · intro fuel more enough
    exact agree_eq_map (agree more (fun _ _ => rfl) enough)
  · cases found : parseLevels (parseFuel tokens) BinaryOp.levels tokens with
    | error error => exact position_of_agree found fun place stay => again stay
    | ok parsed =>
        obtain ⟨e, rest⟩ := parsed
        obtain ⟨p, -, spelled⟩ := (sound_within _).phrase _ tokens e rest found
        obtain ⟨before, split, words⟩ := (Grammar.spells_iff tokens rest p.words).mp spelled
        have left : Agree id (Leaves id [] front.length) (.ok (e, rest)) (.ok (e, rest)) := by
          rw [← found]
          exact again fun _ _ => rfl
        refine ⟨?_, before, split, fun token member => before_of_spelled words member⟩
        cases left with
        | ok same =>
            cases same with
            | intro fewer alike =>
                have length := alike.length_eq
                exact List.ne_nil_of_length_eq_add_one length

theorem ofTokens_eq_error {error : ExprError} (failed : ofTokens tokens = .error error) :
    ∃ token ∈ tokens, error.position = token.start := by
  have agree (place : Nat → Nat) (stay : ∀ token ∈ tokens, place token.start = token.start) :
      Agree place (· = ·) (ofTokens tokens) (ofTokens tokens) := by
    have alike := alike_self whole [] stay
    rw [List.append_nil] at alike
    exact ofTokens_agree alike
  exact position_of_agree failed agree

end

/-- Whatever the source is, there is an expression with calls that are fit to be made or an error
within the source, and the parser does not leave the tokens. -/
theorem parse_stays_within (source : Text) :
    (match parse source with
      | .ok e => ∀ call ∈ e.calls, call.1.Accepts call.2.length
      | .error error => error.position ≤ source.length) ∧
    (match Token.readAll source with
      | .ok tokens => StaysWithin tokens
      | .error error => parse source = .error error) := by
  cases read : Token.readAll source with
  | error error =>
      have inside := Token.position_of_readFrom read
      rw [Nat.zero_add] at inside
      have failed : parse source = .error error := by
        rw [parse, read]
        rfl
      rw [failed]
      exact ⟨Nat.le_of_lt inside, rfl⟩
  | ok tokens =>
      have laid := Token.laid_of_lexed (Token.lexed_of_readAll read)
      obtain ⟨front, whole, -⟩ := laid.last
      refine ⟨?_, staysWithin_of_finish whole⟩
      cases parsed : parse source with
      | ok e => exact fun call member => (parse_admitted source e parsed).accepts member
      | error error =>
          have failed : ofTokens tokens = .error error := by
            rw [parse, read] at parsed
            exact parsed
          obtain ⟨token, member, position⟩ := ofTokens_eq_error whole failed
          obtain ⟨before, after, split, start⟩ := laid.placed member
          have length := congrArg List.length split
          simp at length start
          change error.position ≤ source.length
          omega

end Expr

end Flowfile
