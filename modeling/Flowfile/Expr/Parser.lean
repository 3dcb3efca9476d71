import Flowfile.Expr.Basic
import Flowfile.Expr.Token

/-!
Parsing expressions by descent through the levels of precedence.

From the loosest level on: `||`, `&&`, the equalities, the orderings, all four grouping to the left;
then `!`, and access by `.name` and `[index]` after literals, names, calls and parentheses.
-/

namespace Flowfile

namespace BinaryOp

def ofSymbol? : Symbol → Option BinaryOp
  | .or => some .or
  | .and => some .and
  | .eq => some .eq
  | .ne => some .ne
  | .lt => some .lt
  | .le => some .le
  | .gt => some .gt
  | .ge => some .ge
  | _ => none

def levels : List (List BinaryOp) := [[.or], [.and], [.eq, .ne], [.lt, .le, .gt, .ge]]

end BinaryOp

namespace Expr

def unexpected {α : Type} (message : String) (tokens : List Token) : Except ExprError α :=
  match tokens with
  | [] => .error ⟨Text.of message, 0⟩
  | token :: _ =>
    let found := if token.lexeme = .finish then Text.of "end of expression" else token.text
    .error ⟨Text.of message ++ Text.of ", found " ++ found, token.start⟩

def expect (symbol : Symbol) (tokens : List Token) : Except ExprError (List Token) :=
  match tokens with
  | ⟨.operator found, _, _⟩ :: rest =>
    if found = symbol then .ok rest
    else unexpected ("Expected '" ++ String.ofList symbol.text ++ "'") tokens
  | _ => unexpected ("Expected '" ++ String.ofList symbol.text ++ "'") tokens

def operatorOf? (level : List BinaryOp) (tokens : List Token) : Option (BinaryOp × List Token) :=
  match tokens with
  | ⟨.operator symbol, _, _⟩ :: rest =>
    match BinaryOp.ofSymbol? symbol with
    | some op => if level.contains op then some (op, rest) else none
    | none => none
  | _ => none

def ofName (name : Text) : Expr :=
  if name = Text.of "true" then .literal (.bool true)
  else if name = Text.of "false" then .literal (.bool false)
  else if name = Text.of "null" then .literal .null
  else .context name

def checkedCall (function : Function) (args : List Expr) (position : Nat) : Except ExprError Expr :=
  if function.admits args.length then .ok (.call function args)
  else
    .error ⟨Text.of "Function '" ++ function.name ++ Text.of "' expects " ++ function.arityText ++
      Text.of " argument(s), got " ++ Text.ofNat args.length, position⟩

mutual

def parseLevels :
    Nat → List (List BinaryOp) → List Token → Except ExprError (Expr × List Token)
  | 0, _, tokens => unexpected "Expected an expression" tokens
  | fuel + 1, [], tokens => parseUnary fuel tokens
  | fuel + 1, level :: tighter, tokens => do
    let (left, rest) ← parseLevels fuel tighter tokens
    parseOperands fuel level tighter left rest

/-- Further operands of one level; they group to the left. -/
def parseOperands :
    Nat → List BinaryOp → List (List BinaryOp) → Expr → List Token →
      Except ExprError (Expr × List Token)
  | 0, _, _, _, tokens => unexpected "Expected an expression" tokens
  | fuel + 1, level, tighter, left, tokens =>
    match operatorOf? level tokens with
    | none => .ok (left, tokens)
    | some (op, afterOp) => do
      let (right, rest) ← parseLevels fuel tighter afterOp
      parseOperands fuel level tighter (.binary op left right) rest

def parseUnary : Nat → List Token → Except ExprError (Expr × List Token)
  | 0, tokens => unexpected "Expected an expression" tokens
  | fuel + 1, tokens =>
    match tokens with
    | ⟨.operator .not, _, _⟩ :: rest => do
      let (operand, after) ← parseUnary fuel rest
      return (.not operand, after)
    | _ => do
      let (primary, rest) ← parsePrimary fuel tokens
      parseAccess fuel primary rest

def parseAccess : Nat → Expr → List Token → Except ExprError (Expr × List Token)
  | 0, _, tokens => unexpected "Expected an expression" tokens
  | fuel + 1, target, tokens =>
    match tokens with
    | ⟨.operator .dot, _, _⟩ :: rest =>
      match rest with
      | ⟨.identifier, name, _⟩ :: after => parseAccess fuel (.property target name) after
      | _ => unexpected "Expected a property name" rest
    | ⟨.operator .openBracket, _, _⟩ :: rest => do
      let (key, after) ← parseLevels fuel BinaryOp.levels rest
      let after ← expect .closeBracket after
      parseAccess fuel (.index target key) after
    | _ => .ok (target, tokens)

def parsePrimary : Nat → List Token → Except ExprError (Expr × List Token)
  | 0, tokens => unexpected "Expected an expression" tokens
  | fuel + 1, tokens =>
    match tokens with
    | ⟨.number value, _, _⟩ :: rest => .ok (.literal (.number value), rest)
    | ⟨.string value, _, _⟩ :: rest => .ok (.literal (.str value), rest)
    | ⟨.identifier, name, start⟩ :: rest =>
      match rest with
      | ⟨.operator .openParen, _, _⟩ :: inner =>
        match Function.find? name with
        | none => .error ⟨Text.of "Unknown function '" ++ name ++ ['\''], start⟩
        | some function => do
          let (args, after) ← parseArgs fuel inner
          return (← checkedCall function args start, after)
      | _ => .ok (ofName name, rest)
    | ⟨.operator .openParen, _, _⟩ :: rest => do
      let (inner, after) ← parseLevels fuel BinaryOp.levels rest
      return (inner, ← expect .closeParen after)
    | _ => unexpected "Expected an expression" tokens

def parseArgs : Nat → List Token → Except ExprError (List Expr × List Token)
  | 0, tokens => unexpected "Expected an expression" tokens
  | fuel + 1, tokens =>
    match tokens with
    | ⟨.operator .closeParen, _, _⟩ :: rest => .ok ([], rest)
    | _ => do
      let (first, rest) ← parseLevels fuel BinaryOp.levels tokens
      let (others, after) ← parseMoreArgs fuel rest
      return (first :: others, after)

def parseMoreArgs : Nat → List Token → Except ExprError (List Expr × List Token)
  | 0, tokens => unexpected "Expected an expression" tokens
  | fuel + 1, tokens =>
    match tokens with
    | ⟨.operator .comma, _, _⟩ :: rest => do
      let (next, after) ← parseLevels fuel BinaryOp.levels rest
      let (others, last) ← parseMoreArgs fuel after
      return (next :: others, last)
    | _ => do return ([], ← expect .closeParen tokens)

end

/-- Steps that suffice for so many tokens: between two tokens the descent passes each level once. -/
def parseFuel (tokens : List Token) : Nat := 10 * (tokens.length + 1)

def ofTokens (tokens : List Token) : Except ExprError Expr :=
  match tokens with
  | [⟨.finish, _, start⟩] => .error ⟨Text.of "Expected an expression", start⟩
  | _ => do
    let (expr, rest) ← parseLevels (parseFuel tokens) BinaryOp.levels tokens
    match rest with
    | ⟨.finish, _, _⟩ :: _ => .ok expr
    | _ => unexpected "Unexpected token" rest

def parse (source : Text) : Except ExprError Expr := do ofTokens (← Token.readAll source)

end Expr

end Flowfile
