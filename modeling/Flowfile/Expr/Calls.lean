import Flowfile.Expr.Parser

/-!
Parsing with a limit on the calls that are under way at once.

A call stays under way while an expression of one level of operators, an operand with its `!`, an
operand with its accessors, a primary or a function with its arguments is parsed. What only looks at
the next token is not counted.
-/

namespace Flowfile

namespace Expr

/-- The source is at fault, or no further call could be made. -/
inductive ParseFailure
  | rejected (error : ExprError)
  | tooDeep

def rejecting {α : Type} (outcome : Except ExprError α) : Except ParseFailure α :=
  outcome.mapError .rejected

/-- Makes one call of those that are left, and goes on with the others. -/
def calling {α : Type} (calls : Nat) (run : Nat → Except ParseFailure α) : Except ParseFailure α :=
  match calls with
  | 0 => .error .tooDeep
  | left + 1 => run left

mutual

def levelsWithin :
    Nat → Nat → List (List BinaryOp) → List Token → Except ParseFailure (Expr × List Token)
  | 0, _, _, tokens => rejecting (unexpected "Expected an expression" tokens)
  | fuel + 1, calls, [], tokens => unaryWithin fuel calls tokens
  | fuel + 1, calls, level :: tighter, tokens => calling calls fun calls => do
    let (left, rest) ← levelsWithin fuel calls tighter tokens
    operandsWithin fuel calls level tighter left rest
termination_by structural fuel => fuel

def operandsWithin :
    Nat → Nat → List BinaryOp → List (List BinaryOp) → Expr → List Token →
      Except ParseFailure (Expr × List Token)
  | 0, _, _, _, _, tokens => rejecting (unexpected "Expected an expression" tokens)
  | fuel + 1, calls, level, tighter, left, tokens =>
    match operatorOf? level tokens with
    | none => .ok (left, tokens)
    | some (op, afterOp) => do
      let (right, rest) ← levelsWithin fuel calls tighter afterOp
      operandsWithin fuel calls level tighter (.binary op left right) rest
termination_by structural fuel => fuel

def unaryWithin : Nat → Nat → List Token → Except ParseFailure (Expr × List Token)
  | 0, _, tokens => rejecting (unexpected "Expected an expression" tokens)
  | fuel + 1, calls, tokens => calling calls fun calls =>
    match tokens with
    | ⟨.operator .not, _, _⟩ :: rest => do
      let (operand, after) ← unaryWithin fuel calls rest
      return (.not operand, after)
    | _ => calling calls fun calls => do
      let (primary, rest) ← primaryWithin fuel calls tokens
      accessWithin fuel calls primary rest
termination_by structural fuel => fuel

def accessWithin : Nat → Nat → Expr → List Token → Except ParseFailure (Expr × List Token)
  | 0, _, _, tokens => rejecting (unexpected "Expected an expression" tokens)
  | fuel + 1, calls, target, tokens =>
    match tokens with
    | ⟨.operator .dot, _, _⟩ :: rest =>
      match rest with
      | ⟨.identifier, name, _⟩ :: after => accessWithin fuel calls (.property target name) after
      | _ => rejecting (unexpected "Expected a property name" rest)
    | ⟨.operator .openBracket, _, _⟩ :: rest => do
      let (key, after) ← levelsWithin fuel calls BinaryOp.levels rest
      let after ← rejecting (expect .closeBracket after)
      accessWithin fuel calls (.index target key) after
    | _ => .ok (target, tokens)
termination_by structural fuel => fuel

def primaryWithin : Nat → Nat → List Token → Except ParseFailure (Expr × List Token)
  | 0, _, tokens => rejecting (unexpected "Expected an expression" tokens)
  | fuel + 1, calls, tokens => calling calls fun calls =>
    match tokens with
    | ⟨.number value, _, _⟩ :: rest => .ok (.literal (.number value), rest)
    | ⟨.string value, _, _⟩ :: rest => .ok (.literal (.str value), rest)
    | ⟨.identifier, name, start⟩ :: rest =>
      match rest with
      | ⟨.operator .openParen, _, _⟩ :: inner => calling calls fun calls =>
        match Function.find? name with
        | none => .error (.rejected ⟨Text.of "Unknown function '" ++ name ++ ['\''], start⟩)
        | some function => do
          let (args, after) ← argsWithin fuel calls inner
          return (← rejecting (checkedCall function args start), after)
      | _ => .ok (ofName name, rest)
    | ⟨.operator .openParen, _, _⟩ :: rest => do
      let (inner, after) ← levelsWithin fuel calls BinaryOp.levels rest
      return (inner, ← rejecting (expect .closeParen after))
    | _ => rejecting (unexpected "Expected an expression" tokens)
termination_by structural fuel => fuel

def argsWithin : Nat → Nat → List Token → Except ParseFailure (List Expr × List Token)
  | 0, _, tokens => rejecting (unexpected "Expected an expression" tokens)
  | fuel + 1, calls, tokens =>
    match tokens with
    | ⟨.operator .closeParen, _, _⟩ :: rest => .ok ([], rest)
    | _ => do
      let (first, rest) ← levelsWithin fuel calls BinaryOp.levels tokens
      let (others, after) ← moreArgsWithin fuel calls rest
      return (first :: others, after)
termination_by structural fuel => fuel

def moreArgsWithin : Nat → Nat → List Token → Except ParseFailure (List Expr × List Token)
  | 0, _, tokens => rejecting (unexpected "Expected an expression" tokens)
  | fuel + 1, calls, tokens =>
    match tokens with
    | ⟨.operator .comma, _, _⟩ :: rest => do
      let (next, after) ← levelsWithin fuel calls BinaryOp.levels rest
      let (others, last) ← moreArgsWithin fuel calls after
      return (next :: others, last)
    | _ => do return ([], ← rejecting (expect .closeParen tokens))
termination_by structural fuel => fuel

end

def ofTokensWithin (limit : Nat) (tokens : List Token) : Except ParseFailure Expr :=
  match tokens with
  | [⟨.finish, _, start⟩] => .error (.rejected ⟨Text.of "Expected an expression", start⟩)
  | _ => do
    let (expr, rest) ← levelsWithin (parseFuel tokens) limit BinaryOp.levels tokens
    match rest with
    | ⟨.finish, _, _⟩ :: _ => .ok expr
    | _ => rejecting (unexpected "Unexpected token" rest)

def parseWithin (limit : Nat) (source : Text) : Except ParseFailure Expr := do
  ofTokensWithin limit (← rejecting (Token.readAll source))

end Expr

end Flowfile
