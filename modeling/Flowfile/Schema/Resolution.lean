import Flowfile.Schema.Basic

/-!
Resolving descriptions at the places of a workflow, and walking them along a path.

Chains of references and of custom descriptions are followed up to a limit. Alternatives inside
alternatives are flattened, however deep they are nested. Where alternatives lead back to themselves
this does not come to an end, which is an error.
-/

namespace Flowfile

def referenceLimit : Nat := 64

def customLimit : Nat := 8

namespace Schema

def followWithin (definitions : List (Text × Desc)) : Nat → Desc → Option Desc
  | limit, .reference _ name =>
    match limit, definitions.lookup name with
    | left + 1, some target => followWithin definitions left target
    | _, _ => none
  | _, desc => some desc

def follow (definitions : List (Text × Desc)) (desc : Desc) : Option Desc :=
  followWithin definitions referenceLimit desc

/-- The text that explains a description; a text on a reference goes before that of its target. -/
def describe (definitions : List (Text × Desc)) (desc : Desc) : Option Text :=
  match desc with
  | .reference about _ =>
    if isPresent about.description then about.description
    else (follow definitions desc).bind (fun target => target.about.text)
  | _ => desc.about.text

end Schema

-- What a custom description is resolved to is a part of it, so there are only so many descriptions
-- that one can come to without a reference.
mutual

def Desc.heads (inquiry : Inquiry) : Desc → List Desc
  | .oneOf about options => .oneOf about options :: Desc.headsOfEach inquiry options
  | .custom about resolve => .custom about resolve :: Desc.headsOfSome inquiry (resolve inquiry)
  | desc => [desc]

def Desc.headsOfSome (inquiry : Inquiry) : Option Desc → List Desc
  | none => []
  | some desc => desc.heads inquiry

def Desc.headsOfEach (inquiry : Inquiry) : List Desc → List Desc
  | [] => []
  | desc :: rest => desc.heads inquiry ++ Desc.headsOfEach inquiry rest

end

/-- Alternatives lead back to themselves, so that they cannot be flattened. -/
inductive Endless
  | alternatives
  deriving DecidableEq

structure Resolution where
  definitions : List (Text × Desc)
  workflow : Value
  contexts : ContextSource

namespace Resolution

def contextAt (r : Resolution) (path : Path) : Context := r.contexts r.workflow path

def describe (r : Resolution) (desc : Desc) : Option Text := Schema.describe r.definitions desc

def concreteWithin (r : Resolution) (path : Path) : Nat → Desc → Option Concrete
  | limit, desc =>
    match Schema.follow r.definitions desc with
    | some (.scalar about choices) => some (.single (.scalar about choices))
    | some (.mapping about fields) => some (.single (.mapping about fields))
    | some (.sequence about items) => some (.single (.sequence about items))
    | some (.oneOf about options) => some (.oneOf about options)
    | some (.custom _ resolve) =>
      match limit, resolve ⟨r.workflow, path, r.contextAt path⟩ with
      | left + 1, some next => concreteWithin r path left next
      | _, _ => none
    | some (.reference _ _) | none => none

def concrete (r : Resolution) (path : Path) (desc : Desc) : Option Concrete :=
  r.concreteWithin path customLimit desc

def optionsWithin (r : Resolution) (path : Path) : Nat → Desc → Except Endless (List Terminal)
  | limit, desc =>
    match r.concrete path desc with
    | none => .ok []
    | some (.single terminal) => .ok [terminal]
    | some (.oneOf _ options) =>
      match limit with
      | 0 => .error .alternatives
      | left + 1 => (options.mapM (optionsWithin r path left)).map List.flatten

def pool (r : Resolution) (path : Path) (desc : Desc) : List Desc :=
  (desc :: r.definitions.map Prod.snd).flatMap
    (Desc.heads ⟨r.workflow, path, r.contextAt path⟩)

/-- The terminal descriptions that a description stands for, in order. In more levels than there are
descriptions one of them comes again. -/
def options (r : Resolution) (path : Path) (desc : Desc) : Except Endless (List Terminal) :=
  r.optionsWithin path (r.pool path desc).length desc

def selectShape (r : Resolution) (path : Path) (desc : Desc) (shape : Shape) :
    Except Endless (Option Terminal) :=
  (r.options path desc).map fun options => options.find? fun terminal => terminal.fits shape

def select (r : Resolution) (path : Path) (desc : Desc) (node : Option Node) :
    Except Endless (Option Terminal) :=
  r.selectShape path desc (shapeOf node)

def segmentShape : Segment → Shape
  | .key _ => .mapping
  | .index _ => .sequence

def enter (terminal : Terminal) (node : Option Node) (segment : Segment) :
    Option (Desc × Option Node) :=
  let target := node.map Node.unalias
  match segment, terminal with
  | .key name, .mapping _ fields =>
    (fields.desc? name).map fun desc => (desc, target.bind fun map => map.get? name)
  | .index position, .sequence _ items => some (items, target.bind fun seq => seq.item? position)
  | _, _ => none

def descend (r : Resolution) (walked : Path) (desc : Desc) (node : Option Node) :
    Path → Except Endless (Option (Desc × Option Node))
  | [] => .ok (some (desc, node))
  | segment :: rest => do
    match ← r.selectShape walked desc (segmentShape segment) with
    | none => return none
    | some terminal =>
      match enter terminal node segment with
      | none => return none
      | some (inner, child) => descend r (walked ++ [segment]) inner child rest

/-- The description that applies at a path and the node there, whether or not the nodes along the
path exist. The description may still have alternatives. -/
def descAt (r : Resolution) (root : Option Node) (desc : Desc) (path : Path) :
    Except Endless (Option (Desc × Option Node)) :=
  r.descend [] desc root path

def selectAt (r : Resolution) (root : Option Node) (desc : Desc) (path : Path)
    (node : Option Node) : Except Endless (Option Terminal) := do
  match ← r.descAt root desc path with
  | none => return none
  | some (inner, _) => r.select path inner node

end Resolution

end Flowfile
