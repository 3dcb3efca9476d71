import Flowfile.Value.Basic
import Flowfile.Yaml.Token.Basic

/-!
Position-aware trees of documents.

Every node has a half-open span of source offsets and a number by which it is told apart from all
other nodes of its tree. An alias holds the node that it refers to.
-/

namespace Flowfile

structure NodeInfo where
  id : Nat
  start : Nat
  stop : Nat
  deriving DecidableEq

inductive Node
  | scalar (info : NodeInfo) (anchor : Option Text) (raw : Text) (value : Value)
      (style : Option Yaml.Style)
  | map (info : NodeInfo) (anchor : Option Text) (flow : Bool) (pairs : List (Node × Node))
  | sequence (info : NodeInfo) (anchor : Option Text) (flow : Bool) (items : List Node)
  | alias (info : NodeInfo) (name : Text) (target : Node)

namespace Node

def info : Node → NodeInfo
  | .scalar info _ _ _ _ | .map info _ _ _ | .sequence info _ _ _ | .alias info _ _ => info

def id (node : Node) : Nat := node.info.id

def start (node : Node) : Nat := node.info.start

def stop (node : Node) : Nat := node.info.stop

def kindName : Node → String
  | .scalar .. => "scalar"
  | .map .. => "map"
  | .sequence .. => "sequence"
  | .alias .. => "alias"

/-- An implicit empty value, such as that of a key with nothing after its colon. -/
def isEmpty : Node → Bool
  | .scalar info _ raw _ style => style.isNone && raw.isEmpty && info.start = info.stop
  | _ => false

/-- The text under which a node is a key. Keys that are not scalars are told apart by kind only. -/
def keyText (node : Node) : Text :=
  match node with
  | .scalar _ _ raw _ _ => raw
  | _ => '<' :: Text.of node.kindName ++ ['>']

def unalias : Node → Node
  | .alias _ _ target => target.unalias
  | node => node

def contains (node : Node) (offset : Int) : Bool := node.start ≤ offset && offset ≤ node.stop

def pairs : Node → List (Node × Node)
  | .map _ _ _ pairs => pairs
  | _ => []

def pair? (node : Node) (key : Text) : Option (Node × Node) :=
  node.pairs.find? (fun pair => pair.1.keyText = key)

def get? (node : Node) (key : Text) : Option Node := (node.pair? key).map (·.2)

def keys (node : Node) : List Text := node.pairs.map (fun pair => pair.1.keyText)

def items : Node → List Node
  | .sequence _ _ _ items => items
  | _ => []

def item? (node : Node) (position : Int) : Option Node :=
  if 0 ≤ position then node.items[position.toNat]? else none

mutual

/-- Number of nodes; an alias counts once and its target not again. -/
def count : Node → Nat
  | .scalar .. => 1
  | .map _ _ _ pairs => 1 + countPairs pairs
  | .sequence _ _ _ items => 1 + countItems items
  | .alias .. => 1

def countPairs : List (Node × Node) → Nat
  | [] => 0
  | (key, value) :: pairs => key.count + value.count + countPairs pairs

def countItems : List Node → Nat
  | [] => 0
  | item :: items => item.count + countItems items

end

end Node

inductive Shape
  | mapping | sequence | scalar | empty
  deriving DecidableEq

def Shape.name : Shape → String
  | .mapping => "mapping"
  | .sequence => "sequence"
  | .scalar => "scalar"
  | .empty => "empty"

/-- Shape of a node behind its aliases; what is absent or implicitly empty is empty. -/
def Node.shape (node : Node) : Shape :=
  match node.unalias with
  | .map .. => .mapping
  | .sequence .. => .sequence
  | target => if target.isEmpty then .empty else .scalar

def shapeOf : Option Node → Shape
  | some node => node.shape
  | none => .empty

end Flowfile
