import Flowfile.Yaml.Event

/-!
The node graph of a YAML document.

Nodes are numbered in the order in which they begin. An alias is no node: it leads to the node that
has the anchor, so a node can be shared and can contain itself.
-/

namespace Flowfile.Yaml

inductive Content
  | scalar (value : Text) (style : Option Style)
  | sequence (flow : Bool) (items : List Nat)
  | mapping (flow : Bool) (pairs : List (Nat × Nat))
  deriving DecidableEq

structure Node where
  content : Content
  anchor : Option Text
  start : Nat
  stop : Nat
  deriving DecidableEq

structure Graph where
  nodes : Array Node
  root : Nat
  deriving DecidableEq

namespace Compose

structure State where
  events : List Event
  fault : Option Failure
  version : Version
  nodes : Array Node := #[]
  anchors : List (Text × Nat) := []

abbrev Action := ExceptT Failure (StateM State)

/-- What is reported if the events end too early without an error. -/
def truncated : Failure := .malformed ⟨.unexpectedEnd, none, none, false⟩

def noteVersions (version : Version) : List Event → Version × List Event
  | .version named :: events => noteVersions named events
  | events => (version, events)

def peek : Action Event := do
  let s ← get
  let (version, events) := noteVersions s.version s.events
  set { s with version := version, events := events }
  match events with
  | event :: _ => return event
  | [] => throw (s.fault.getD truncated)

def skip : Action Unit := modify fun s => { s with events := s.events.drop 1 }

def add (node : Node) : Action Nat := do
  let number := (← get).nodes.size
  modify fun s => { s with
    nodes := s.nodes.push node
    anchors :=
      match node.anchor with
      | some name => (name, number) :: s.anchors
      | none => s.anchors }
  return number

def finish (number : Nat) (node : Node) : Action Unit :=
  modify fun s => { s with nodes := s.nodes.setIfInBounds number node }

mutual

def node : Nat → Action Nat
  | 0 => throw truncated
  | fuel + 1 => do
    let event ← peek
    skip
    match event with
    | .alias name start =>
      match (← get).anchors.lookup name with
      | some number => return number
      | none => throw (.grammar (.undefinedAlias name) none start)
    | .scalar anchor value style _ start stop =>
      add ⟨.scalar value style, anchor, start.index, stop.index⟩
    | .sequenceStart anchor flow start =>
      let number ← add ⟨.sequence flow [], anchor, start.index, start.index⟩
      let (items, stop) ← items fuel
      finish number ⟨.sequence flow items, anchor, start.index, stop.index⟩
      return number
    | .mappingStart anchor flow start =>
      let number ← add ⟨.mapping flow [], anchor, start.index, start.index⟩
      let (pairs, stop) ← pairs fuel
      finish number ⟨.mapping flow pairs, anchor, start.index, stop.index⟩
      return number
    | _ => throw truncated

def items : Nat → Action (List Nat × Mark)
  | 0 => throw truncated
  | fuel + 1 => do
    match ← peek with
    | .sequenceEnd stop =>
      skip
      return ([], stop)
    | _ =>
      let item ← node fuel
      let (others, stop) ← items fuel
      return (item :: others, stop)

def pairs : Nat → Action (List (Nat × Nat) × Mark)
  | 0 => throw truncated
  | fuel + 1 => do
    match ← peek with
    | .mappingEnd stop =>
      skip
      return ([], stop)
    | _ =>
      let key ← node fuel
      let value ← node fuel
      let (others, stop) ← pairs fuel
      return ((key, value) :: others, stop)

end

def document : Action (Option Nat) := do
  let _ ← peek
  skip
  match ← peek with
  | .streamEnd => return none
  | _ =>
    skip
    let root ← node (2 * (← get).events.length + 4)
    let _ ← peek
    skip
    match ← peek with
    | .documentStart start =>
      let first := ((← get).nodes[root]?).map Node.start
      throw (.malformed ⟨.anotherDocument, some start.index, first, false⟩)
    | _ => return some root

end Compose

/-- Composes the node graph of a text that holds at most one document. Gives also the version that
is in force from then on: the one that the text names, or else the one that was in force before. -/
def compose (version : Version) (text : Text) : Except Failure (Option Graph) × Version :=
  let (events, fault) := events version text
  let (root, s) :=
    Compose.document.run.run { events := events, fault := fault, version := version }
  (root.map (Option.map fun root => ⟨s.nodes, root⟩), s.version)

end Flowfile.Yaml
