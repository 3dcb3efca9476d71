import Flowfile.Value.Coercion

/-!
Expressions, the functions they may call, and the static paths of access chains.
-/

namespace Flowfile

inductive BinaryOp
  | or | and | eq | ne | lt | le | gt | ge
  deriving DecidableEq

def BinaryOp.text : BinaryOp → String
  | .or => "||"
  | .and => "&&"
  | .eq => "=="
  | .ne => "!="
  | .lt => "<"
  | .le => "<="
  | .gt => ">"
  | .ge => ">="

inductive Function
  | contains | startsWith | endsWith | format | join | toJson | fromJson
  | success | always | failure | cancelled | hashFiles
  deriving DecidableEq

namespace Function

def all : List Function :=
  [.contains, .startsWith, .endsWith, .format, .join, .toJson, .fromJson, .success, .always,
    .failure, .cancelled, .hashFiles]

def name : Function → Text
  | .contains => Text.of "contains"
  | .startsWith => Text.of "startsWith"
  | .endsWith => Text.of "endsWith"
  | .format => Text.of "format"
  | .join => Text.of "join"
  | .toJson => Text.of "toJSON"
  | .fromJson => Text.of "fromJSON"
  | .success => Text.of "success"
  | .always => Text.of "always"
  | .failure => Text.of "failure"
  | .cancelled => Text.of "cancelled"
  | .hashFiles => Text.of "hashFiles"

def leastArgs : Function → Nat
  | .contains | .startsWith | .endsWith => 2
  | .format | .join | .toJson | .fromJson | .hashFiles => 1
  | .success | .always | .failure | .cancelled => 0

def greatestArgs? : Function → Option Nat
  | .contains | .startsWith | .endsWith | .join => some 2
  | .toJson | .fromJson => some 1
  | .success | .always | .failure | .cancelled => some 0
  | .format | .hashFiles => none

/-- Names are matched without regard to the case of ASCII letters. -/
def find? (name : Text) : Option Function :=
  all.find? (fun function => function.name.lower = name.lower)

def admits (function : Function) (count : Nat) : Bool :=
  function.leastArgs ≤ count &&
    match function.greatestArgs? with
    | none => true
    | some greatest => count ≤ greatest

def arityText (function : Function) : Text :=
  match function.greatestArgs? with
  | none => Text.of "at least " ++ Text.ofNat function.leastArgs
  | some greatest =>
    if function.leastArgs = greatest then Text.ofNat greatest
    else Text.ofNat function.leastArgs ++ Text.of " to " ++ Text.ofNat greatest

end Function

inductive Expr
  | literal (value : Value)
  | context (name : Text)
  | property (target : Expr) (name : Text)
  | index (target : Expr) (index : Expr)
  | not (operand : Expr)
  | binary (op : BinaryOp) (left : Expr) (right : Expr)
  | call (function : Function) (args : List Expr)

namespace Expr

/-- The key that a literal index stands for; none if the literal is not a text or an integer. -/
def literalKey? : Value → Option (Except EvalError Text)
  | .str s => some (.ok s)
  | .number (.int i) => some (integerKey i)
  | _ => none

/-- Segments of a pure access chain: names and literal keys from a top-level name on. A chain with
a computed index has none. -/
def staticPath : Expr → Except EvalError (Option (List Text))
  | .context name => .ok (some [name])
  | .property target name => do
    match ← staticPath target with
    | some base => return some (base ++ [name])
    | none => return none
  | .index target (.literal value) =>
    match literalKey? value with
    | none => .ok none
    | some key => do
      match ← staticPath target with
      | some base => return some (base ++ [← key])
      | none => return none
  | _ => .ok none

end Expr

end Flowfile
