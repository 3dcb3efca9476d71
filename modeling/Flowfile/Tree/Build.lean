import Flowfile.Tree.Basic
import Flowfile.Tree.Scalar
import Flowfile.Yaml.Graph

/-!
From the node graph to a tree.

Each node of the graph is converted at its first visit. A further visit gives an alias, whose place
is where its name is next found in the source; an alias to a collection that is still being
converted leads to an empty scalar. The number of nodes is bounded, and collections that are nested
too deep lose their contents.
-/

namespace Flowfile.Build

structure Limits where
  maxDepth : Nat
  maxNodes : Nat

structure State where
  /-- How many nodes have been visited. -/
  count : Nat := 0
  /-- Trees of the graph nodes that are done, by the numbers of the nodes. -/
  built : Array (Option Node)
  /-- Start of the first collection that was nested too deep. -/
  depthExceededAt : Option Nat := none

def isLayout (c : Char) : Bool := c = ' ' || c = '\t' || c = '\r' || c = '\n'

def afterIndicator? (source : Text) (searchFrom : Nat) (indicator : Option Char) : Option Nat :=
  match indicator with
  | none => none
  | some c =>
    let rest := source.drop searchFrom
    let blanks := (rest.takeWhile isLayout).length
    if rest[blanks]? = some c then some (searchFrom + blanks + 1) else none

/-- The tree of a scalar. An implicit empty value stands right after its indicator. -/
def scalar (source : Text) (node : Yaml.Node) (id : Nat) (value : Text) (style : Option Yaml.Style)
    (searchFrom : Nat) (indicator : Option Char) : Node :=
  let spot :=
    if value.isEmpty && style.isNone then afterIndicator? source searchFrom indicator else none
  let info : NodeInfo :=
    match spot with
    | some offset => ⟨id, offset, offset⟩
    | none => ⟨id, node.start, node.stop⟩
  .scalar info node.anchor value (Scalar.resolve value style) style

def aliasTo (source : Text) (node : Yaml.Node) (target : Option Node) (id searchFrom : Nat) : Node :=
  let name := node.anchor.getD []
  let place :=
    if name.isEmpty then none
    else (Text.search? ('*' :: name) (source.drop searchFrom)).map (· + searchFrom)
  let (start, stop) :=
    match place with
    | some offset => (offset, offset + 1 + name.length)
    | none => (searchFrom, searchFrom)
  let empty : Node := .scalar ⟨id + 1, start, stop⟩ none [] .null none
  .alias ⟨id, start, stop⟩ name (target.getD empty)

/-- The last pair of each key, in the order of the pairs. -/
def lastPairs : List (Node × Node) → List (Node × Node)
  | [] => []
  | pair :: rest =>
    if rest.any (fun other => other.1.keyText = pair.1.keyText) then lastPairs rest
    else pair :: lastPairs rest

def blockMapEnd (start : Nat) (pairs : List (Node × Node)) : Nat :=
  pairs.foldl (fun stop pair => max (max stop pair.1.stop) pair.2.stop) start

def blockSequenceEnd (start : Nat) (items : List Node) : Nat :=
  items.foldl (fun stop item => max stop item.stop) (start + 1)

def State.exceeded (s : State) (offset : Nat) : State :=
  { s with depthExceededAt := s.depthExceededAt.or (some offset) }

def State.keep (s : State) (number : Nat) (node : Node) : State :=
  { s with built := s.built.setIfInBounds number (some node) }

def State.built? (s : State) (number : Nat) : Option Node := (s.built[number]?).join

structure Env where
  graph : Array Yaml.Node
  source : Text
  limits : Limits

/-- How a node of the graph is converted: from its number, where its source can start at the
earliest, and what introduces it. -/
abbrev Convert := (number searchFrom : Nat) → (indicator : Option Char) → State →
  Option (Node × State)

def mapPairs (convert : Convert) (cursor : Nat) :
    List (Nat × Nat) → State → Option (List (Node × Node) × State)
  | [], s => some ([], s)
  | (keyNumber, valueNumber) :: rest, s => do
    let (key, s) ← convert keyNumber cursor none s
    let (value, s) ← convert valueNumber key.stop (some ':') s
    let (pairs, s) ← mapPairs convert (max key.stop value.stop) rest s
    return ((key, value) :: pairs, s)

def seqItems (convert : Convert) (flow : Bool) (cursor : Nat) :
    List Nat → State → Option (List Node × State)
  | [], s => some ([], s)
  | number :: rest, s => do
    let (item, s) ← convert number cursor (if flow then none else some '-') s
    let (items, s) ← seqItems convert flow item.stop rest s
    return (item :: items, s)

/-- Converts a node inside the collections `above`; none once there are too many nodes. -/
def node (env : Env) : Nat → (above : List Nat) → Convert
  | 0, _, _, _, _, _ => none
  | fuel + 1, above, number, searchFrom, indicator, s =>
    let s := { s with count := s.count + 1 }
    if env.limits.maxNodes < s.count then none
    else
      let id := 2 * s.count
      match env.graph[number]? with
      | none => some (.scalar ⟨id, searchFrom, searchFrom⟩ none [] .null none, s)
      | some found =>
        if (s.built? number).isSome || above.contains number then
          some (aliasTo env.source found (s.built? number) id searchFrom, s)
        else
          let tooDeep : Bool := env.limits.maxDepth ≤ above.length
          let inner := node env fuel (number :: above)
          match found.content with
          | .scalar value style =>
            let result := scalar env.source found id value style searchFrom indicator
            some (result, s.keep number result)
          | .mapping flow children =>
            if tooDeep then
              let result : Node := .map ⟨id, found.start, found.stop⟩ found.anchor flow []
              some (result, (s.exceeded found.start).keep number result)
            else do
              let (visited, s) ← mapPairs inner found.start children s
              let pairs := lastPairs visited
              let stop := if flow then found.stop else blockMapEnd found.start pairs
              let result : Node := .map ⟨id, found.start, stop⟩ found.anchor flow pairs
              return (result, s.keep number result)
          | .sequence flow children =>
            if tooDeep then
              let result : Node := .sequence ⟨id, found.start, found.stop⟩ found.anchor flow []
              some (result, (s.exceeded found.start).keep number result)
            else do
              let (items, s) ← seqItems inner flow found.start children s
              let stop := if flow then found.stop else blockSequenceEnd found.start items
              let result : Node := .sequence ⟨id, found.start, stop⟩ found.anchor flow items
              return (result, s.keep number result)

def tree (limits : Limits) (source : Text) (graph : Yaml.Graph) : Option (Node × State) :=
  node ⟨graph.nodes, source, limits⟩ (limits.maxNodes + 1) [] graph.root 0 none
    { built := Array.replicate graph.nodes.size none }

end Flowfile.Build
