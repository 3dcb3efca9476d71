import Flowfile.Expr.Function
import Flowfile.Expr.Parser

/-!
Evaluation of expressions against a context.

A context answers dotted paths. A static access chain is asked for in one piece, and computed
accessors are then applied to the answer. The paths asked for are part of the outcome, in order,
also when evaluation fails.
-/

namespace Flowfile

abbrev Resolver := Text → Except EvalError Value

/-- An outcome together with the paths asked for on the way to it. -/
structure Traced (α : Type) where
  asked : List Text
  result : Except EvalError α

namespace Traced

def pure {α : Type} (a : α) : Traced α := ⟨[], .ok a⟩

def lift {α : Type} (result : Except EvalError α) : Traced α := ⟨[], result⟩

def bind {α β : Type} (first : Traced α) (next : α → Traced β) : Traced β :=
  match first.result with
  | .error e => ⟨first.asked, .error e⟩
  | .ok a => ⟨first.asked ++ (next a).asked, (next a).result⟩

instance : Monad Traced where
  pure := pure
  bind := bind

def ask (resolve : Resolver) (path : Text) : Traced Value := ⟨[path], resolve path⟩

end Traced

/-- One step into a value by a property name or a computed index. Lists take what converts to a
whole number in range, mappings take texts and integers. -/
def Value.access (v key : Value) : Except EvalError Value :=
  match v with
  | .list _ items =>
    match key.toNumber.toInt? with
    | some (.ofNat index) => .ok (items.getD index .undefined)
    | _ => .ok .undefined
  | .map _ _ =>
    match key with
    | .str s => .ok (v.step s)
    | .number (.int i) => do return v.step (← integerKey i)
    | _ => .ok .undefined
  | _ => .ok .undefined

namespace BinaryOp

def apply (op : BinaryOp) (left right : Value) : Bool :=
  match op with
  | .eq => left.looseEq right
  | .ne => !left.isUndefined && !right.isUndefined && !left.looseEq right
  | .lt => Value.compare .lt left right
  | .le => Value.compare .le left right
  | .gt => Value.compare .gt left right
  | .ge | .and | .or => Value.compare .ge left right

end BinaryOp

namespace Expr

mutual

def evaluate (resolve : Resolver) : Expr → Traced Value
  | .literal value => .pure value
  | .context name => .ask resolve name
  | .property target name => do
    match ← Traced.lift (staticPath (.property target name)) with
    | some path => Traced.ask resolve (Text.dotted path)
    | none =>
      let value ← evaluate resolve target
      Traced.lift (value.access (.str name))
  | .index target key => do
    match ← Traced.lift (staticPath (.index target key)) with
    | some path => Traced.ask resolve (Text.dotted path)
    | none =>
      let value ← evaluate resolve target
      let keyValue ← evaluate resolve key
      Traced.lift (value.access keyValue)
  | .not operand => do
    let value ← evaluate resolve operand
    return .bool (!(← Traced.lift value.truthy))
  | .binary .and left right => do
    let value ← evaluate resolve left
    if ← Traced.lift value.truthy then evaluate resolve right else return value
  | .binary .or left right => do
    let value ← evaluate resolve left
    if ← Traced.lift value.truthy then return value else evaluate resolve right
  | .binary op left right => do
    let leftValue ← evaluate resolve left
    let rightValue ← evaluate resolve right
    return .bool (op.apply leftValue rightValue)
  | .call function args => do
    let values ← evaluateAll resolve args
    Traced.lift (function.apply values)

def evaluateAll (resolve : Resolver) : List Expr → Traced (List Value)
  | [] => .pure []
  | expr :: exprs => do
    let value ← evaluate resolve expr
    let values ← evaluateAll resolve exprs
    return value :: values

end

def evaluateSource (resolve : Resolver) (source : Text) : Traced Value :=
  match parse source with
  | .ok expr => evaluate resolve expr
  | .error error => .lift (.error (.expression error))

def callByName (name : Text) (args : List Value) : Except EvalError Value :=
  match Function.find? name with
  | some function => function.apply args
  | none => .error (.failure (Text.of "Unknown function '" ++ name ++ ['\'']))

end Expr

end Flowfile
