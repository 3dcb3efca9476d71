import Flowfile.Expr.Calls
import Flowfile.Proofs.Outcome

/-! Parsing with a limit on the calls has the outcome that it has without one, or the calls do not
suffice. -/

namespace Flowfile

namespace Expr

section

variable {α β : Type}

/-- Where the calls suffice, there is the outcome without a limit. -/
def Follows (limited : Except ParseFailure α) (ideal : Except ExprError α) : Prop :=
  limited = .error .tooDeep ∨ limited = rejecting ideal

theorem follows_rejecting (ideal : Except ExprError α) : Follows (rejecting ideal) ideal :=
  .inr rfl

theorem Follows.bind {limited : Except ParseFailure α} {ideal : Except ExprError α}
    {next : α → Except ParseFailure β} {next' : α → Except ExprError β}
    (first : Follows limited ideal) (later : ∀ a, Follows (next a) (next' a)) :
    Follows (limited >>= next) (ideal >>= next') := by
  rcases first with rfl | rfl
  · exact .inl rfl
  · cases ideal with
    | error error => exact .inr rfl
    | ok a => exact later a

theorem Follows.calling {calls : Nat} {run : Nat → Except ParseFailure α}
    {ideal : Except ExprError α} (each : ∀ left, Follows (run left) ideal) :
    Follows (calling calls run) ideal := by
  cases calls with
  | zero => exact .inl rfl
  | succ left => exact each left

theorem Follows.eq_ok {limited : Except ParseFailure α} {ideal : Except ExprError α}
    {a : α} (follows : Follows limited ideal) (found : limited = .ok a) : ideal = .ok a := by
  rcases follows with failed | same
  · rw [failed] at found
    cases found
  · rw [found] at same
    cases ideal with
    | error error => cases same
    | ok b =>
        cases same
        rfl

theorem rejecting_ne_tooDeep (ideal : Except ExprError α) :
    rejecting ideal ≠ .error .tooDeep := by
  cases ideal <;> rintro ⟨⟩

theorem Follows.bind_tooDeep {limited : Except ParseFailure α}
    {ideal : Except ExprError α} {next : α → Except ParseFailure β} {a : α}
    (follows : Follows limited ideal) (found : ideal = .ok a)
    (failed : next a = .error .tooDeep) : (limited >>= next) = .error .tooDeep := by
  rcases follows with missing | same
  · rw [missing]
    rfl
  · rw [same, found]
    exact failed

theorem bind_of_tooDeep {limited : Except ParseFailure α}
    (next : α → Except ParseFailure β) (failed : limited = .error .tooDeep) :
    (limited >>= next) = .error .tooDeep := by
  rw [failed]
  rfl

structure FollowsWithin (fuel : Nat) : Prop where
  levels : ∀ calls levels tokens,
    Follows (levelsWithin fuel calls levels tokens) (parseLevels fuel levels tokens)
  operands : ∀ calls level tighter left tokens,
    Follows (operandsWithin fuel calls level tighter left tokens)
      (parseOperands fuel level tighter left tokens)
  unary : ∀ calls tokens, Follows (unaryWithin fuel calls tokens) (parseUnary fuel tokens)
  access : ∀ calls target tokens,
    Follows (accessWithin fuel calls target tokens) (parseAccess fuel target tokens)
  primary : ∀ calls tokens, Follows (primaryWithin fuel calls tokens) (parsePrimary fuel tokens)
  args : ∀ calls tokens, Follows (argsWithin fuel calls tokens) (parseArgs fuel tokens)
  moreArgs : ∀ calls tokens, Follows (moreArgsWithin fuel calls tokens) (parseMoreArgs fuel tokens)

end

section

variable {fuel : Nat} (within : FollowsWithin fuel)

include within

theorem levels_follow (calls : Nat) (levels : List (List BinaryOp)) (tokens : List Token) :
    Follows (levelsWithin (fuel + 1) calls levels tokens)
      (parseLevels (fuel + 1) levels tokens) := by
  cases levels with
  | nil => exact within.unary calls tokens
  | cons level tighter =>
      refine Follows.calling fun left => (within.levels left tighter tokens).bind ?_
      intro first
      exact within.operands left level tighter first.1 first.2

theorem operands_follow (calls : Nat) (level : List BinaryOp) (tighter : List (List BinaryOp))
    (left : Expr) (tokens : List Token) :
    Follows (operandsWithin (fuel + 1) calls level tighter left tokens)
      (parseOperands (fuel + 1) level tighter left tokens) := by
  rw [operandsWithin, parseOperands]
  rcases operatorOf? level tokens with _ | ⟨op, afterOp⟩
  · exact .inr rfl
  · refine (within.levels calls tighter afterOp).bind ?_
    intro right
    exact within.operands calls level tighter (.binary op left right.1) right.2

theorem unary_follow (calls : Nat) (tokens : List Token) :
    Follows (unaryWithin (fuel + 1) calls tokens) (parseUnary (fuel + 1) tokens) := by
  refine Follows.calling fun left => ?_
  have access : Follows
      (calling left fun left =>
        primaryWithin fuel left tokens >>= fun primary =>
          accessWithin fuel left primary.1 primary.2)
      (parsePrimary fuel tokens >>= fun primary => parseAccess fuel primary.1 primary.2) := by
    refine Follows.calling fun left => (within.primary left tokens).bind ?_
    intro primary
    exact within.access left primary.1 primary.2
  rcases tokens with _ | ⟨⟨lexeme, text, start⟩, rest⟩
  · exact access
  · cases lexeme with
    | operator symbol =>
        cases symbol with
        | not => exact (within.unary left rest).bind fun operand => .inr rfl
        | _ => exact access
    | _ => exact access

theorem access_follow (calls : Nat) (target : Expr) (tokens : List Token) :
    Follows (accessWithin (fuel + 1) calls target tokens)
      (parseAccess (fuel + 1) target tokens) := by
  rcases tokens with _ | ⟨⟨lexeme, text, start⟩, rest⟩
  · exact .inr rfl
  · cases lexeme with
    | operator symbol =>
        cases symbol with
        | dot =>
            rcases rest with _ | ⟨⟨lexeme, name, start⟩, rest⟩
            · exact .inr rfl
            · cases lexeme with
              | identifier => exact within.access calls (.property target name) rest
              | _ => exact .inr rfl
        | openBracket =>
            refine (within.levels calls BinaryOp.levels rest).bind fun key => ?_
            refine (follows_rejecting (expect .closeBracket key.2)).bind fun after => ?_
            exact within.access calls (.index target key.1) after
        | _ => exact .inr rfl
    | _ => exact .inr rfl

theorem primary_follow (calls : Nat) (tokens : List Token) :
    Follows (primaryWithin (fuel + 1) calls tokens) (parsePrimary (fuel + 1) tokens) := by
  refine Follows.calling fun left => ?_
  rcases tokens with _ | ⟨⟨lexeme, text, start⟩, rest⟩
  · exact .inr rfl
  · cases lexeme with
    | operator symbol =>
        cases symbol with
        | openParen =>
            refine (within.levels left BinaryOp.levels rest).bind fun inner => ?_
            exact (follows_rejecting (expect .closeParen inner.2)).bind fun after => .inr rfl
        | _ => exact .inr rfl
    | identifier =>
        rcases rest with _ | ⟨⟨lexeme, next, start'⟩, rest⟩
        · exact .inr rfl
        · cases lexeme with
          | operator symbol =>
              cases symbol with
              | openParen =>
                  rw [parsePrimary]
                  refine Follows.calling fun left => ?_
                  cases Function.find? text with
                  | none => exact .inr rfl
                  | some function =>
                      refine (within.args left rest).bind fun args => ?_
                      exact (follows_rejecting (checkedCall function args.1 start)).bind
                        fun call => .inr rfl
              | _ => exact .inr rfl
          | _ => exact .inr rfl
    | _ => exact .inr rfl

theorem args_follow (calls : Nat) (tokens : List Token) :
    Follows (argsWithin (fuel + 1) calls tokens) (parseArgs (fuel + 1) tokens) := by
  have several : Follows
      (levelsWithin fuel calls BinaryOp.levels tokens >>= fun first =>
        moreArgsWithin fuel calls first.2 >>= fun others =>
          pure (first.1 :: others.1, others.2))
      (parseLevels fuel BinaryOp.levels tokens >>= fun first =>
        parseMoreArgs fuel first.2 >>= fun others => pure (first.1 :: others.1, others.2)) := by
    refine (within.levels calls BinaryOp.levels tokens).bind fun first => ?_
    exact (within.moreArgs calls first.2).bind fun others => .inr rfl
  rcases tokens with _ | ⟨⟨lexeme, text, start⟩, rest⟩
  · exact several
  · cases lexeme with
    | operator symbol =>
        cases symbol with
        | closeParen => exact .inr rfl
        | _ => exact several
    | _ => exact several

theorem moreArgs_follow (calls : Nat) (tokens : List Token) :
    Follows (moreArgsWithin (fuel + 1) calls tokens) (parseMoreArgs (fuel + 1) tokens) := by
  have closed : Follows
      (do return (([] : List Expr), ← rejecting (expect .closeParen tokens)))
      (do return (([] : List Expr), ← expect .closeParen tokens)) :=
    (follows_rejecting (expect .closeParen tokens)).bind fun after => .inr rfl
  rcases tokens with _ | ⟨⟨lexeme, text, start⟩, rest⟩
  · exact closed
  · cases lexeme with
    | operator symbol =>
        cases symbol with
        | comma =>
            refine (within.levels calls BinaryOp.levels rest).bind fun next => ?_
            exact (within.moreArgs calls next.2).bind fun others => .inr rfl
        | _ => exact closed
    | _ => exact closed

end

theorem follows_within (fuel : Nat) : FollowsWithin fuel := by
  induction fuel with
  | zero => constructor <;> intros <;> exact .inr rfl
  | succ fuel within =>
      exact {
        levels := levels_follow within
        operands := operands_follow within
        unary := unary_follow within
        access := access_follow within
        primary := primary_follow within
        args := args_follow within
        moreArgs := moreArgs_follow within }

end Expr

end Flowfile
