import Flowfile.Document

/-!
Hover: what is said about the token at an offset of a document.

Inside an embedded expression the whole scalar is evaluated; elsewhere the schema is quoted.
-/

namespace Flowfile

namespace Hover

def onExpression (source : Text) (offset : Int) : Bool :=
  (Template.spans source).any (fun span => span.closed && span.contains offset)

def evaluated (context : Context) (raw : Text) : Except EvalError (Option Text) :=
  match (Template.evaluate context.resolve raw).result with
  | .ok value => .ok (some (Text.of "Evaluates to: \x60" ++ value.toText ++ ['\x60']))
  | .error (.expression _) => .ok none
  | .error e => .error e

def expressionText (document : Document) (contexts : ContextSource) (offset : Nat)
    (location : Location) : Except EvalError (Option Text) :=
  match location.node with
  | some (.scalar info _ raw _ _) =>
    if Template.hasExpression raw &&
        onExpression (document.text.slice info.start info.stop) ((offset : Int) - info.start) then
      evaluated (contexts document.workflow location.path) raw
    else .ok none
  | _ => .ok none

def keyText (document : Document) (r : Resolution) (location : Location) :
    Except Endless (Option Text) :=
  match location.node, location.path with
  | some (.scalar _ _ raw _ _), _ :: _ => do
    let fields ← document.fieldsAt r location.parent location.path.dropLast
    return (fields.bind fun fields => fields.desc? raw).bind r.describe
  | _, _ => .ok none

def choiceText (terminal : Terminal) (node : Node) : Option Text :=
  match terminal, node with
  | .scalar _ choices, .scalar _ _ raw _ _ =>
    ((choices.find? raw).bind Choice.description).filter (fun text => !text.isEmpty)
  | _, _ => none

def nodeText (r : Resolution) (terminal : Terminal) (node : Node) : Option Text :=
  match choiceText terminal node with
  | some text => some text
  | none => r.describe terminal.toDesc

def valueText (document : Document) (r : Resolution) (location : Location) :
    Except Endless (Option Text) :=
  match location.node with
  | none => .ok none
  | some node => do
    let terminal ← document.terminalAt r (some node) location.path
    return terminal.bind fun terminal => nodeText r terminal node

def schemaText (document : Document) (r : Resolution) (location : Location) :
    Except Endless (Option Text) :=
  let text :=
    if location.region = .key then keyText document r location else valueText document r location
  text.map fun text => text.filter fun t => !t.isEmpty

inductive Failure
  | evaluation (error : EvalError)
  | schema (endless : Endless)

end Hover

def Document.hover (document : Document) (contexts : ContextSource) (offset : Int) :
    Except Hover.Failure (Option Text) :=
  let location := locate document.root document.text offset
  let fromSchema := (Hover.schemaText document (document.resolution contexts) location).mapError
    Hover.Failure.schema
  if !document.holds offset then .ok none
  else
    match location.region with
    | .empty => .ok none
    | .key => fromSchema
    | .value => do
      match ← (Hover.expressionText document contexts offset.toNat location).mapError
          Hover.Failure.evaluation with
      | some text => return some text
      | none => fromSchema

end Flowfile
