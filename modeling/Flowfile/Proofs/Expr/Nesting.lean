import Flowfile.Proofs.Expr.Completeness
import Flowfile.Proofs.Expr.Following
import Flowfile.Proofs.Expr.Simulation

/-! How deep the calls of the parser are nested.

That is a matter of the tokens: a procedure calls another one where the words before it are the
front part of a derivation. The limit on the calls is exceeded by a chain of calls that is longer
than the limit, whatever else is wrong with the source. -/

namespace Flowfile

namespace Expr

open Grammar

/-- What takes up a call. A function is called behind its name and the parenthesis. -/
inductive Procedure
  | chain (level : List BinaryOp) (tighter : List (List BinaryOp))
  | unary
  | access
  | primary
  | call (name : Text)

def Procedure.ofLevels : List (List BinaryOp) → Procedure
  | [] => .unary
  | level :: tighter => .chain level tighter

inductive ArgumentAt (tokens : List Token) : List Token → Prop
  | first (other : ∀ rest, ¬Spells tokens [.symbol .closeParen] rest) : ArgumentAt tokens tokens
  | later {count : Nat} {rest : List Token} (args : Arguments (count + 1))
      (spelled : Spells tokens (args.words ++ [.symbol .comma]) rest) : ArgumentAt tokens rest

/-- While it parses the tokens, a procedure calls another one for the rest of them. -/
inductive Enters : Procedure → List Token → Procedure → List Token → Prop
  | first {level tighter tokens} : Enters (.chain level tighter) tokens (.ofLevels tighter) tokens
  | later {level tighter tokens rest} (left : Phrase tighter) (more : Operands level tighter)
      {op : BinaryOp} (member : op ∈ level)
      (spelled : Spells tokens (left.words ++ (more.words ++ [.symbol op.symbol])) rest) :
      Enters (.chain level tighter) tokens (.ofLevels tighter) rest
  | not {tokens rest} (spelled : Spells tokens [.symbol .not] rest) :
      Enters .unary tokens .unary rest
  | operand {tokens} (other : ∀ rest, ¬Spells tokens [.symbol .not] rest) :
      Enters .unary tokens .access tokens
  | head {tokens} : Enters .access tokens .primary tokens
  | key {tokens rest} (head : Primary) (steps : Accessors)
      (spelled : Spells tokens (head.words ++ (steps.words ++ [.symbol .openBracket])) rest) :
      Enters .access tokens (.ofLevels BinaryOp.levels) rest
  | group {tokens rest} (spelled : Spells tokens [.symbol .openParen] rest) :
      Enters .primary tokens (.ofLevels BinaryOp.levels) rest
  | call {tokens rest name} (spelled : Spells tokens [.name name, .symbol .openParen] rest) :
      Enters .primary tokens (.call name) rest
  | argument {tokens rest name function} (known : Function.find? name = some function)
      (place : ArgumentAt tokens rest) :
      Enters (.call name) tokens (.ofLevels BinaryOp.levels) rest

/-- There comes a time when more than so many calls are under way, that of the procedure among
them. -/
inductive Exceeds : Procedure → List Token → Nat → Prop
  | here {procedure tokens} : Exceeds procedure tokens 0
  | inside {procedure tokens inner rest calls} (enters : Enters procedure tokens inner rest)
      (exceeds : Exceeds inner rest calls) : Exceeds procedure tokens (calls + 1)

theorem spells_here (symbol : Symbol) (text : Text) (start : Nat) (rest : List Token) :
    Spells (⟨.operator symbol, text, start⟩ :: rest) [.symbol symbol] rest :=
  ⟨rfl, (spells_nil rest rest).mpr rfl⟩

theorem spells_sign {tokens rest : List Token} {symbol : Symbol}
    (spelled : Spells tokens [.symbol symbol] rest) :
    ∃ text start, tokens = ⟨.operator symbol, text, start⟩ :: rest := by
  obtain ⟨text, start, more, rfl, tail⟩ := spells_symbol spelled
  rw [spells_nil] at tail
  exact ⟨text, start, by rw [tail]⟩

/-! Calls that are missing are nested in one another. -/

theorem phrase_of_within {fuel calls : Nat} {levels : List (List BinaryOp)}
    {tokens rest : List Token} {e : Expr}
    (found : levelsWithin fuel calls levels tokens = .ok (e, rest)) :
    ∃ p : Phrase levels, Spells tokens p.words rest := by
  have ideal := ((follows_within fuel).levels calls levels tokens).eq_ok found
  obtain ⟨p, -, spelled⟩ := (sound_within fuel).phrase levels tokens e rest ideal
  exact ⟨p, spelled⟩

structure DeepWithin (fuel : Nat) : Prop where
  levels : ∀ {calls levels tokens},
    levelsWithin fuel calls levels tokens = .error .tooDeep →
      Exceeds (.ofLevels levels) tokens calls
  operands : ∀ {calls level tighter left tokens},
    operandsWithin fuel calls level tighter left tokens = .error .tooDeep →
      ∃ more : Operands level tighter, ∃ op ∈ level, ∃ rest,
        Spells tokens (more.words ++ [.symbol op.symbol]) rest ∧
          Exceeds (.ofLevels tighter) rest calls
  unary : ∀ {calls tokens}, unaryWithin fuel calls tokens = .error .tooDeep →
    Exceeds .unary tokens calls
  access : ∀ {calls target tokens}, accessWithin fuel calls target tokens = .error .tooDeep →
    ∃ (steps : Accessors) (rest : List Token),
      Spells tokens (steps.words ++ [.symbol .openBracket]) rest ∧
        Exceeds (.ofLevels BinaryOp.levels) rest calls
  primary : ∀ {calls tokens}, primaryWithin fuel calls tokens = .error .tooDeep →
    Exceeds .primary tokens calls
  args : ∀ {calls tokens}, argsWithin fuel calls tokens = .error .tooDeep →
    ∃ rest, ArgumentAt tokens rest ∧ Exceeds (.ofLevels BinaryOp.levels) rest calls
  moreArgs : ∀ {calls tokens}, moreArgsWithin fuel calls tokens = .error .tooDeep →
    ∃ (count : Nat) (args : MoreArguments count) (rest : List Token),
      Spells tokens (args.words ++ [.symbol .comma]) rest ∧
        Exceeds (.ofLevels BinaryOp.levels) rest calls

section

variable {fuel : Nat} (within : DeepWithin fuel) {calls : Nat} {tokens : List Token}

include within

theorem levels_deep {levels : List (List BinaryOp)}
    (failed : levelsWithin (fuel + 1) calls levels tokens = .error .tooDeep) :
    Exceeds (.ofLevels levels) tokens calls := by
  cases levels with
  | nil => exact within.unary failed
  | cons level tighter =>
      cases calls with
      | zero => exact .here
      | succ calls =>
          rcases (bind_eq_error _ _ _).mp failed with first | ⟨⟨left, middle⟩, found, later⟩
          · exact .inside .first (within.levels first)
          · obtain ⟨phrase, front⟩ := phrase_of_within found
            obtain ⟨more, op, member, rest, back, exceeds⟩ := within.operands later
            have spelled := (spells_append _ _ _ _).mpr ⟨middle, front, back⟩
            exact .inside (.later phrase more member spelled) exceeds

theorem operands_deep {level : List BinaryOp} {tighter : List (List BinaryOp)} {left : Expr}
    (failed : operandsWithin (fuel + 1) calls level tighter left tokens = .error .tooDeep) :
    ∃ more : Operands level tighter, ∃ op ∈ level, ∃ rest,
      Spells tokens (more.words ++ [.symbol op.symbol]) rest ∧
        Exceeds (.ofLevels tighter) rest calls := by
  rw [operandsWithin] at failed
  rcases next : operatorOf? level tokens with _ | ⟨op, afterOp⟩
  · rw [next] at failed
    cases failed
  · rw [next] at failed
    obtain ⟨member, sign⟩ := (operatorOf?_eq_some level tokens afterOp op).mp next
    rcases (bind_eq_error _ _ _).mp failed with here | ⟨⟨right, middle⟩, found, later⟩
    · exact ⟨.done, op, member, afterOp, sign, within.levels here⟩
    · obtain ⟨operand, front⟩ := phrase_of_within found
      obtain ⟨more, last, among, rest, back, exceeds⟩ := within.operands later
      refine ⟨.more op member operand more, last, among, rest, ?_, exceeds⟩
      rw [Operands.words, List.cons_append, List.append_assoc]
      refine (spells_append _ _ [.symbol op.symbol] _).mpr ⟨afterOp, sign, ?_⟩
      exact (spells_append _ _ _ _).mpr ⟨middle, front, back⟩

theorem unary_deep (failed : unaryWithin (fuel + 1) calls tokens = .error .tooDeep) :
    Exceeds .unary tokens calls := by
  cases calls with
  | zero => exact .here
  | succ calls =>
      have operand (other : ∀ rest, ¬Spells tokens [.symbol .not] rest)
          (failed : (calling calls fun calls =>
            primaryWithin fuel calls tokens >>= fun primary =>
              accessWithin fuel calls primary.1 primary.2) = .error .tooDeep) :
          Exceeds .unary tokens (calls + 1) := by
        refine .inside (.operand other) ?_
        cases calls with
        | zero => exact .here
        | succ calls =>
            rcases (bind_eq_error _ _ _).mp failed with first | ⟨⟨target, middle⟩, found, later⟩
            · exact .inside .head (within.primary first)
            · have ideal := ((follows_within fuel).primary calls tokens).eq_ok found
              obtain ⟨head, -, front⟩ := (sound_within fuel).primary tokens target middle ideal
              obtain ⟨steps, rest, back, exceeds⟩ := within.access later
              exact .inside (.key head steps ((spells_append _ _ _ _).mpr ⟨middle, front, back⟩))
                exceeds
      rcases tokens with _ | ⟨⟨lexeme, text, start⟩, rest⟩
      · exact operand (fun rest spelled => spelled) failed
      · cases lexeme with
        | operator symbol =>
            cases symbol with
            | not =>
                rcases (bind_eq_error _ _ _).mp failed with inner | ⟨_, _, done⟩
                · exact .inside (.not (spells_here .not text start rest)) (within.unary inner)
                · cases done
            | _ =>
                refine operand (fun rest spelled => ?_) failed
                cases spelled.1
        | _ =>
            refine operand (fun rest spelled => ?_) failed
            cases spelled.1

theorem access_deep {target : Expr}
    (failed : accessWithin (fuel + 1) calls target tokens = .error .tooDeep) :
    ∃ (steps : Accessors) (rest : List Token),
      Spells tokens (steps.words ++ [.symbol .openBracket]) rest ∧
        Exceeds (.ofLevels BinaryOp.levels) rest calls := by
  rcases tokens with _ | ⟨⟨lexeme, text, start⟩, rest⟩
  · cases failed
  · cases lexeme with
    | operator symbol =>
        cases symbol with
        | dot =>
            rcases rest with _ | ⟨⟨lexeme, name, start⟩, rest⟩
            · exact absurd failed (rejecting_ne_tooDeep _)
            · cases lexeme with
              | identifier =>
                  obtain ⟨steps, last, back, exceeds⟩ := within.access failed
                  exact ⟨.property name steps, last, ⟨rfl, rfl, back⟩, exceeds⟩
              | _ => exact absurd failed (rejecting_ne_tooDeep _)
        | openBracket =>
            rcases (bind_eq_error _ _ _).mp failed with here | ⟨⟨key, middle⟩, found, later⟩
            · exact ⟨.done, rest, spells_here .openBracket text start rest, within.levels here⟩
            rcases (bind_eq_error _ _ _).mp later with closing | ⟨after, closed, behind⟩
            · exact absurd closing (rejecting_ne_tooDeep _)
            obtain ⟨phrase, front⟩ := phrase_of_within found
            obtain ⟨steps, last, back, exceeds⟩ := within.access behind
            have bracket := (expect_eq_ok .closeBracket middle after).mp
              ((follows_rejecting _).eq_ok closed)
            refine ⟨.index phrase steps, last, ⟨rfl, ?_⟩, exceeds⟩
            change Spells rest ((phrase.words ++ .symbol .closeBracket :: steps.words) ++ _) last
            rw [List.append_assoc]
            exact (spells_append _ _ _ _).mpr ⟨middle, front,
              (spells_append _ _ [.symbol .closeBracket] _).mpr ⟨after, bracket, back⟩⟩
        | _ => cases failed
    | _ => cases failed

theorem primary_deep (failed : primaryWithin (fuel + 1) calls tokens = .error .tooDeep) :
    Exceeds .primary tokens calls := by
  cases calls with
  | zero => exact .here
  | succ calls =>
      have astray : rejecting (unexpected "Expected an expression" tokens) ≠
          (.error .tooDeep : Except ParseFailure (Expr × List Token)) := rejecting_ne_tooDeep _
      rcases tokens with _ | ⟨⟨lexeme, text, start⟩, rest⟩
      · exact absurd failed astray
      · cases lexeme with
        | operator symbol =>
            cases symbol with
            | openParen =>
                rcases (bind_eq_error _ _ _).mp failed with inner | ⟨_, _, later⟩
                · have opening := spells_here .openParen text start rest
                  exact .inside (.group opening) (within.levels inner)
                · rcases (bind_eq_error _ _ _).mp later with closing | ⟨_, _, done⟩
                  · exact absurd closing (rejecting_ne_tooDeep _)
                  · cases done
            | _ => exact absurd failed astray
        | identifier =>
            rcases rest with _ | ⟨⟨lexeme, next, start'⟩, rest⟩
            · cases failed
            · cases lexeme with
              | operator symbol =>
                  cases symbol with
                  | openParen =>
                      refine .inside (.call ⟨rfl, spells_here .openParen next start' rest⟩) ?_
                      cases calls with
                      | zero => exact .here
                      | succ calls =>
                          rw [primaryWithin] at failed
                          simp only [calling] at failed
                          rcases known : Function.find? text with _ | function
                          · rw [known] at failed
                            cases failed
                          · rw [known] at failed
                            rcases (bind_eq_error _ _ _).mp failed with args | ⟨_, _, later⟩
                            · obtain ⟨last, place, exceeds⟩ := within.args args
                              exact .inside (.argument known place) exceeds
                            · rcases (bind_eq_error _ _ _).mp later with counted | ⟨_, _, done⟩
                              · exact absurd counted (rejecting_ne_tooDeep _)
                              · cases done
                  | _ => cases failed
              | _ => cases failed
        | finish => exact absurd failed astray
        | _ => cases failed

theorem args_deep (failed : argsWithin (fuel + 1) calls tokens = .error .tooDeep) :
    ∃ rest, ArgumentAt tokens rest ∧ Exceeds (.ofLevels BinaryOp.levels) rest calls := by
  have several (other : ∀ rest, ¬Spells tokens [.symbol .closeParen] rest)
      (failed : (levelsWithin fuel calls BinaryOp.levels tokens >>= fun first =>
        moreArgsWithin fuel calls first.2 >>= fun others =>
          pure (first.1 :: others.1, others.2)) = .error .tooDeep) :
      ∃ rest, ArgumentAt tokens rest ∧ Exceeds (.ofLevels BinaryOp.levels) rest calls := by
    rcases (bind_eq_error _ _ _).mp failed with here | ⟨⟨first, middle⟩, found, later⟩
    · exact ⟨tokens, .first other, within.levels here⟩
    · rcases (bind_eq_error _ _ _).mp later with behind | ⟨_, _, done⟩
      · obtain ⟨phrase, front⟩ := phrase_of_within found
        obtain ⟨count, args, rest, back, exceeds⟩ := within.moreArgs behind
        refine ⟨rest, .later (.some phrase args) ?_, exceeds⟩
        rw [Arguments.words, List.append_assoc]
        exact (spells_append _ _ _ _).mpr ⟨middle, front, back⟩
      · cases done
  rcases tokens with _ | ⟨⟨lexeme, text, start⟩, rest⟩
  · exact several (fun rest spelled => spelled) failed
  · cases lexeme with
    | operator symbol =>
        cases symbol with
        | closeParen => cases failed
        | _ =>
            refine several (fun rest spelled => ?_) failed
            cases spelled.1
    | _ =>
        refine several (fun rest spelled => ?_) failed
        cases spelled.1

theorem moreArgs_deep (failed : moreArgsWithin (fuel + 1) calls tokens = .error .tooDeep) :
    ∃ (count : Nat) (args : MoreArguments count) (rest : List Token),
      Spells tokens (args.words ++ [.symbol .comma]) rest ∧
        Exceeds (.ofLevels BinaryOp.levels) rest calls := by
  have closed : (do return (([] : List Expr), ← rejecting (expect .closeParen tokens))) ≠
      (.error .tooDeep : Except ParseFailure (List Expr × List Token)) := by
    intro failed
    rcases (bind_eq_error _ _ _).mp failed with closing | ⟨_, _, done⟩
    · exact rejecting_ne_tooDeep _ closing
    · cases done
  rcases tokens with _ | ⟨⟨lexeme, text, start⟩, rest⟩
  · exact absurd failed closed
  · cases lexeme with
    | operator symbol =>
        cases symbol with
        | comma =>
            have comma := spells_here .comma text start rest
            rcases (bind_eq_error _ _ _).mp failed with here | ⟨⟨next, middle⟩, found, later⟩
            · exact ⟨0, .done, rest, comma, within.levels here⟩
            · rcases (bind_eq_error _ _ _).mp later with behind | ⟨_, _, done⟩
              · obtain ⟨phrase, front⟩ := phrase_of_within found
                obtain ⟨count, args, last, back, exceeds⟩ := within.moreArgs behind
                refine ⟨count + 1, .more phrase args, last, ?_, exceeds⟩
                rw [MoreArguments.words, List.cons_append, List.append_assoc]
                exact (spells_append _ _ [.symbol .comma] _).mpr
                  ⟨rest, comma, (spells_append _ _ _ _).mpr ⟨middle, front, back⟩⟩
              · cases done
        | _ => exact absurd failed closed
    | _ => exact absurd failed closed

end

theorem deep_within (fuel : Nat) : DeepWithin fuel := by
  induction fuel with
  | zero => constructor <;> intros <;> exact absurd ‹_› (rejecting_ne_tooDeep _)
  | succ fuel within =>
      exact {
        levels := levels_deep within
        operands := operands_deep within
        unary := unary_deep within
        access := access_deep within
        primary := primary_deep within
        args := args_deep within
        moreArgs := moreArgs_deep within }

/-! Where calls are missing, the parser finds that out. -/

theorem spells_length {tokens rest : List Token} {words : List Word}
    (spelled : Spells tokens words rest) : tokens.length = words.length + rest.length := by
  obtain ⟨used, rfl, same⟩ := (spells_iff tokens rest words).mp spelled
  have length := congrArg List.length same
  simp only [List.length_map] at length
  rw [List.length_append, length]

theorem operands_stop {level : List BinaryOp} {tighter : List (List BinaryOp)}
    (suffix : level :: tighter <:+ BinaryOp.levels) (more : Operands level tighter) {op : BinaryOp}
    (member : op ∈ level) {tokens rest : List Token}
    (spelled : Spells tokens (more.words ++ [.symbol op.symbol]) rest) : Stops tighter tokens := by
  cases more with
  | done => exact stops_of_spells spelled (operator_not_mem_continuations suffix member)
  | more first among operand others =>
      exact stops_of_spells spelled (operator_not_mem_continuations suffix among)

theorem accessors_bare_bracket (steps : Accessors) {tokens rest : List Token}
    (spelled : Spells tokens (steps.words ++ [.symbol .openBracket]) rest) : Bare tokens := by
  cases steps with
  | done | property | index =>
      obtain ⟨text, start, more, rfl, -⟩ := spells_symbol spelled
      simp [Bare]

theorem moreArguments_stop {count : Nat} (args : MoreArguments count) {tokens rest : List Token}
    (spelled : Spells tokens (args.words ++ [.symbol .comma]) rest) :
    Stops BinaryOp.levels tokens := by
  cases args with
  | done | more => exact stops_of_spells spelled (by decide)

structure FailsWithin (fuel : Nat) : Prop where
  levels : ∀ {levels tokens calls}, levels <:+ BinaryOp.levels →
    10 * tokens.length + levels.length + 3 ≤ fuel → Exceeds (.ofLevels levels) tokens calls →
      levelsWithin fuel calls levels tokens = .error .tooDeep
  operands : ∀ {level tighter left tokens rest calls} (more : Operands level tighter)
    {op : BinaryOp}, level :: tighter <:+ BinaryOp.levels → op ∈ level →
      10 * tokens.length + 1 ≤ fuel → Spells tokens (more.words ++ [.symbol op.symbol]) rest →
      Exceeds (.ofLevels tighter) rest calls →
        operandsWithin fuel calls level tighter left tokens = .error .tooDeep
  unary : ∀ {tokens calls}, 10 * tokens.length + 2 ≤ fuel → Exceeds .unary tokens calls →
    unaryWithin fuel calls tokens = .error .tooDeep
  access : ∀ {target tokens rest calls} (steps : Accessors), 10 * tokens.length + 1 ≤ fuel →
    Spells tokens (steps.words ++ [.symbol .openBracket]) rest →
    Exceeds (.ofLevels BinaryOp.levels) rest calls →
      accessWithin fuel calls target tokens = .error .tooDeep
  primary : ∀ {tokens calls}, 10 * tokens.length + 1 ≤ fuel → Exceeds .primary tokens calls →
    primaryWithin fuel calls tokens = .error .tooDeep
  args : ∀ {tokens rest calls}, 10 * tokens.length + 8 ≤ fuel → ArgumentAt tokens rest →
    Exceeds (.ofLevels BinaryOp.levels) rest calls →
      argsWithin fuel calls tokens = .error .tooDeep
  moreArgs : ∀ {count tokens rest calls} (args : MoreArguments count),
    10 * tokens.length + 1 ≤ fuel → Spells tokens (args.words ++ [.symbol .comma]) rest →
    Exceeds (.ofLevels BinaryOp.levels) rest calls →
      moreArgsWithin fuel calls tokens = .error .tooDeep

section

variable {fuel : Nat} (within : FailsWithin fuel) {tokens rest : List Token} {calls : Nat}

include within

theorem levels_fail {levels : List (List BinaryOp)} (suffix : levels <:+ BinaryOp.levels)
    (enough : 10 * tokens.length + levels.length + 3 ≤ fuel + 1)
    (exceeds : Exceeds (.ofLevels levels) tokens calls) :
    levelsWithin (fuel + 1) calls levels tokens = .error .tooDeep := by
  cases levels with
  | nil =>
      rw [List.length_nil] at enough
      exact within.unary (by omega) exceeds
  | cons level tighter =>
      change Exceeds (.chain level tighter) tokens calls at exceeds
      rw [List.length_cons] at enough
      have shorter := (List.suffix_cons level tighter).trans suffix
      cases exceeds with
      | here => rfl
      | @inside _ _ _ _ calls enters exceeds =>
          rw [levelsWithin]
          cases enters with
          | first => exact bind_of_tooDeep _ (within.levels shorter (by omega) exceeds)
          | later left more member spelled =>
              obtain ⟨middle, front, back⟩ := (spells_append _ _ _ _).mp spelled
              have length := spells_length front
              have positive := phrase_words_pos left
              have found := phrase_complete left shorter tokens middle front
                (operands_stop suffix more member back) fuel (by omega)
              refine ((follows_within fuel).levels calls tighter tokens).bind_tooDeep found ?_
              exact within.operands more suffix member (by omega) back exceeds

theorem operands_fail {level : List BinaryOp} {tighter : List (List BinaryOp)} {left : Expr}
    (more : Operands level tighter) {op : BinaryOp} (suffix : level :: tighter <:+ BinaryOp.levels)
    (member : op ∈ level) (enough : 10 * tokens.length + 1 ≤ fuel + 1)
    (spelled : Spells tokens (more.words ++ [.symbol op.symbol]) rest)
    (exceeds : Exceeds (.ofLevels tighter) rest calls) :
    operandsWithin (fuel + 1) calls level tighter left tokens = .error .tooDeep := by
  have shorter := (List.suffix_cons level tighter).trans suffix
  have short : tighter.length + 1 ≤ 4 := suffix.length_le
  cases more with
  | done =>
      have length := spells_length spelled
      simp only [Operands.words, List.nil_append, List.length_singleton] at length
      rw [operandsWithin, (operatorOf?_eq_some level tokens rest op).mpr ⟨member, spelled⟩]
      exact bind_of_tooDeep _ (within.levels shorter (by omega) exceeds)
  | more first among operand others =>
      rw [Operands.words, List.cons_append, List.append_assoc] at spelled
      obtain ⟨afterOp, sign, spelled⟩ := (spells_append _ _ [.symbol first.symbol] _).mp spelled
      obtain ⟨middle, front, back⟩ := (spells_append _ _ _ _).mp spelled
      have length := spells_length sign
      have length' := spells_length front
      rw [List.length_singleton] at length
      have found := phrase_complete operand shorter afterOp middle front
        (operands_stop suffix others member back) fuel (by omega)
      rw [operandsWithin, (operatorOf?_eq_some level tokens afterOp first).mpr ⟨among, sign⟩]
      refine ((follows_within fuel).levels calls tighter afterOp).bind_tooDeep found ?_
      exact within.operands others suffix member (by omega) back exceeds

theorem unary_fail (enough : 10 * tokens.length + 2 ≤ fuel + 1)
    (exceeds : Exceeds .unary tokens calls) :
    unaryWithin (fuel + 1) calls tokens = .error .tooDeep := by
  cases exceeds with
  | here => rfl
  | @inside _ _ _ _ calls enters exceeds =>
      cases enters with
      | not spelled =>
          obtain ⟨text, start, rfl⟩ := spells_sign spelled
          rw [List.length_cons] at enough
          exact bind_of_tooDeep _ (within.unary (by omega) exceeds)
      | operand other =>
          have access : (calling calls fun calls =>
              primaryWithin fuel calls tokens >>= fun primary =>
                accessWithin fuel calls primary.1 primary.2) = .error .tooDeep := by
            cases exceeds with
            | here => rfl
            | @inside _ _ _ _ calls enters exceeds =>
                cases enters with
                | head => exact bind_of_tooDeep _ (within.primary (by omega) exceeds)
                | key head steps spelled =>
                    obtain ⟨middle, front, back⟩ := (spells_append _ _ _ _).mp spelled
                    have length := spells_length front
                    have found := primary_complete head tokens middle front
                      (accessors_bare_bracket steps back) fuel (by omega)
                    refine ((follows_within fuel).primary calls tokens).bind_tooDeep found ?_
                    exact within.access steps (by dsimp only; omega) back exceeds
          rcases tokens with _ | ⟨⟨lexeme, text, start⟩, rest⟩
          · exact access
          · cases lexeme with
            | operator symbol =>
                cases symbol with
                | not => exact absurd (spells_here .not text start rest) (other rest)
                | _ => exact access
            | _ => exact access

theorem access_fail {target : Expr} (steps : Accessors)
    (enough : 10 * tokens.length + 1 ≤ fuel + 1)
    (spelled : Spells tokens (steps.words ++ [.symbol .openBracket]) rest)
    (exceeds : Exceeds (.ofLevels BinaryOp.levels) rest calls) :
    accessWithin (fuel + 1) calls target tokens = .error .tooDeep := by
  cases steps with
  | done =>
      obtain ⟨text, start, rfl⟩ := spells_sign spelled
      rw [List.length_cons] at enough
      refine bind_of_tooDeep _ (within.levels (List.suffix_refl _) ?_ exceeds)
      rw [levels_length]
      omega
  | property name others =>
      obtain ⟨text, start, more, rfl, tail⟩ := spells_symbol spelled
      obtain ⟨start', after, rfl, back⟩ := spells_name tail
      simp only [List.length_cons] at enough
      exact within.access others (by omega) back exceeds
  | index key others =>
      obtain ⟨text, start, more, rfl, tail⟩ := spells_symbol spelled
      change Spells more ((key.words ++ .symbol .closeBracket :: others.words) ++ _) rest at tail
      rw [List.append_assoc] at tail
      obtain ⟨closed, front, tail⟩ := (spells_append _ _ _ _).mp tail
      obtain ⟨after, bracket, back⟩ := (spells_append _ _ [.symbol .closeBracket] _).mp tail
      have length := spells_length front
      have length' := spells_length bracket
      rw [List.length_singleton] at length'
      rw [List.length_cons] at enough
      have found := phrase_complete key (List.suffix_refl _) more closed front
        (stops_of_spells bracket (by decide)) fuel (by rw [levels_length]; omega)
      refine ((follows_within fuel).levels calls BinaryOp.levels more).bind_tooDeep found ?_
      refine (follows_rejecting _).bind_tooDeep ((expect_eq_ok _ _ _).mpr bracket) ?_
      exact within.access others (by omega) back exceeds

theorem primary_fail (enough : 10 * tokens.length + 1 ≤ fuel + 1)
    (exceeds : Exceeds .primary tokens calls) :
    primaryWithin (fuel + 1) calls tokens = .error .tooDeep := by
  cases exceeds with
  | here => rfl
  | @inside _ _ _ _ calls enters exceeds =>
      cases enters with
      | group spelled =>
          obtain ⟨text, start, rfl⟩ := spells_sign spelled
          rw [List.length_cons] at enough
          refine bind_of_tooDeep _ (within.levels (List.suffix_refl _) ?_ exceeds)
          rw [levels_length]
          omega
      | @call _ _ name spelled =>
          obtain ⟨start, more, rfl, tail⟩ := spells_name spelled
          obtain ⟨text, start', rfl⟩ := spells_sign tail
          simp only [List.length_cons] at enough
          cases exceeds with
          | here => rfl
          | inside enters exceeds =>
              cases enters with
              | argument known place =>
                  rw [primaryWithin]
                  simp only [calling, known]
                  exact bind_of_tooDeep _ (within.args (by omega) place exceeds)

theorem args_fail (enough : 10 * tokens.length + 8 ≤ fuel + 1) (place : ArgumentAt tokens rest)
    (exceeds : Exceeds (.ofLevels BinaryOp.levels) rest calls) :
    argsWithin (fuel + 1) calls tokens = .error .tooDeep := by
  have several (failed : (levelsWithin fuel calls BinaryOp.levels tokens >>= fun first =>
        moreArgsWithin fuel calls first.2 >>= fun others =>
          pure (first.1 :: others.1, others.2)) = .error .tooDeep)
      (other : ∀ rest, ¬Spells tokens [.symbol .closeParen] rest) :
      argsWithin (fuel + 1) calls tokens = .error .tooDeep := by
    rcases tokens with _ | ⟨⟨lexeme, text, start⟩, rest⟩
    · exact failed
    · cases lexeme with
      | operator symbol =>
          cases symbol with
          | closeParen => exact absurd (spells_here .closeParen text start rest) (other rest)
          | _ => exact failed
      | _ => exact failed
  cases place with
  | first other =>
      refine several (bind_of_tooDeep _ (within.levels (List.suffix_refl _) ?_ exceeds)) other
      rw [levels_length]
      omega
  | later args spelled =>
      cases args with
      | some first others =>
          rw [Arguments.words, List.append_assoc] at spelled
          obtain ⟨middle, front, back⟩ := (spells_append _ _ _ _).mp spelled
          have length := spells_length front
          have found := phrase_complete first (List.suffix_refl _) tokens middle front
            (moreArguments_stop others back) fuel (by rw [levels_length]; omega)
          refine several ?_ fun after closing => ?_
          · refine ((follows_within fuel).levels calls BinaryOp.levels tokens).bind_tooDeep found ?_
            exact bind_of_tooDeep _ (within.moreArgs others (by dsimp only; omega) back exceeds)
          · obtain ⟨word, words, same, opening⟩ := phrase_opening first
            rw [same] at front
            exact opening (spells_head_eq front closing).1

theorem moreArgs_fail {count : Nat} (args : MoreArguments count)
    (enough : 10 * tokens.length + 1 ≤ fuel + 1)
    (spelled : Spells tokens (args.words ++ [.symbol .comma]) rest)
    (exceeds : Exceeds (.ofLevels BinaryOp.levels) rest calls) :
    moreArgsWithin (fuel + 1) calls tokens = .error .tooDeep := by
  cases args with
  | done =>
      obtain ⟨text, start, rfl⟩ := spells_sign spelled
      rw [List.length_cons] at enough
      refine bind_of_tooDeep _ (within.levels (List.suffix_refl _) ?_ exceeds)
      rw [levels_length]
      omega
  | more next others =>
      rw [MoreArguments.words, List.cons_append, List.append_assoc] at spelled
      obtain ⟨text, start, more, rfl, tail⟩ := spells_symbol spelled
      obtain ⟨middle, front, back⟩ := (spells_append _ _ _ _).mp tail
      have length := spells_length front
      rw [List.length_cons] at enough
      have found := phrase_complete next (List.suffix_refl _) more middle front
        (moreArguments_stop others back) fuel (by rw [levels_length]; omega)
      refine ((follows_within fuel).levels calls BinaryOp.levels more).bind_tooDeep found ?_
      exact bind_of_tooDeep _ (within.moreArgs others (by omega) back exceeds)

end

theorem fails_within (fuel : Nat) : FailsWithin fuel := by
  induction fuel with
  | zero => constructor <;> intros <;> omega
  | succ fuel within =>
      exact {
        levels := levels_fail within
        operands := operands_fail within
        unary := unary_fail within
        access := access_fail within
        primary := primary_fail within
        args := args_fail within
        moreArgs := moreArgs_fail within }

/-! Only what opens something, and `!`, makes the calls nest deeper. -/

def openings (tokens : List Token) : Nat :=
  tokens.countP fun token =>
    token.lexeme = .operator .openParen || token.lexeme = .operator .openBracket

def negations (tokens : List Token) : Nat :=
  tokens.countP fun token => token.lexeme = .operator .not

/-- So many calls at most are under way before anything is opened. -/
def Procedure.height : Procedure → Nat
  | .chain _ tighter => tighter.length + 5
  | .unary => 4
  | .access => 3
  | .primary => 2
  | .call _ => 9

theorem height_ofLevels (levels : List (List BinaryOp)) :
    (Procedure.ofLevels levels).height = levels.length + 4 := by
  cases levels <;> rfl

theorem suffix_of_spells {tokens rest : List Token} {words : List Word}
    (spelled : Spells tokens words rest) : rest <:+ tokens := by
  obtain ⟨used, rfl, -⟩ := (spells_iff tokens rest words).mp spelled
  exact List.suffix_append used rest

theorem ArgumentAt.suffix {tokens rest : List Token} (place : ArgumentAt tokens rest) :
    rest <:+ tokens := by
  cases place with
  | first => exact List.suffix_refl tokens
  | later args spelled => exact suffix_of_spells spelled

theorem few_of_suffix {tokens rest : List Token} (suffix : rest <:+ tokens) :
    openings rest ≤ openings tokens ∧ negations rest ≤ negations tokens :=
  ⟨suffix.sublist.countP_le, suffix.sublist.countP_le⟩

theorem openings_of_spells {tokens rest : List Token} {symbol : Symbol}
    (bracket : symbol = .openParen ∨ symbol = .openBracket)
    (spelled : Spells tokens [.symbol symbol] rest) : openings tokens = openings rest + 1 := by
  obtain ⟨text, start, rfl⟩ := spells_sign spelled
  rcases bracket with rfl | rfl <;> simp [openings]

/-- Each call is nearer to the bound: what it opens or negates makes up for the procedures that it
passes again. -/
theorem Enters.lt {procedure inner : Procedure} {tokens rest : List Token}
    (enters : Enters procedure tokens inner rest) :
    inner.height + 8 * openings rest + negations rest <
      procedure.height + 8 * openings tokens + negations tokens := by
  cases enters with
  | first =>
      rw [height_ofLevels, Procedure.height]
      omega
  | later left more member spelled =>
      have behind := few_of_suffix (suffix_of_spells spelled)
      rw [height_ofLevels, Procedure.height]
      omega
  | not spelled =>
      obtain ⟨text, start, rfl⟩ := spells_sign spelled
      have fewer := (few_of_suffix (List.suffix_cons ⟨.operator .not, text, start⟩ rest)).1
      simp only [negations, List.countP_cons, decide_true, if_true]
      omega
  | operand | head =>
      simp only [Procedure.height]
      omega
  | key head steps spelled =>
      obtain ⟨middle, front, back⟩ := (spells_append _ _ _ _).mp spelled
      obtain ⟨bracket, between, sign⟩ := (spells_append _ _ _ _).mp back
      have before := few_of_suffix (suffix_of_spells front)
      have within := few_of_suffix (suffix_of_spells between)
      have behind := few_of_suffix (suffix_of_spells sign)
      have opened := openings_of_spells (.inr rfl) sign
      rw [height_ofLevels, levels_length, Procedure.height]
      omega
  | group spelled =>
      have behind := few_of_suffix (suffix_of_spells spelled)
      have opened := openings_of_spells (.inl rfl) spelled
      rw [height_ofLevels, levels_length, Procedure.height]
      omega
  | @call _ _ name spelled =>
      obtain ⟨middle, front, sign⟩ := (spells_append _ _ [.name name] _).mp spelled
      have before := few_of_suffix (suffix_of_spells front)
      have behind := few_of_suffix (suffix_of_spells sign)
      have opened := openings_of_spells (.inl rfl) sign
      simp only [Procedure.height]
      omega
  | argument known place =>
      have behind := few_of_suffix place.suffix
      rw [height_ofLevels, levels_length, Procedure.height]
      omega

theorem Exceeds.lt {procedure : Procedure} {tokens : List Token} {calls : Nat}
    (exceeds : Exceeds procedure tokens calls) :
    calls < procedure.height + 8 * openings tokens + negations tokens := by
  induction exceeds with
  | @here procedure => cases procedure <;> simp only [Procedure.height] <;> omega
  | inside enters _ ih => exact Nat.lt_of_le_of_lt ih enters.lt

end Expr

end Flowfile
