import Flowfile.Completion
import Flowfile.Context.Edit
import Flowfile.Hover
import Flowfile.Http.Body
import Flowfile.Http.Limit
import Flowfile.Text.Units
import Flowfile.Workflow.Schema

/-!
The service: diagnostics, completion and hover over HTTP.
-/

namespace Flowfile.Http

/-- What requests are answered with, once it has been installed. -/
structure Services where
  schema : Option Schema := none
  contexts : Option ContextSource := none

inductive Failure
  | noSchema
  | noContexts
  | evaluation (e : EvalError)
  | composing (limitation : Yaml.Limitation)
  | resolving (endless : Endless)
  /-- A complaint quotes a number that is not finite, which a reply cannot carry. -/
  | notFinite

def Failure.message? : Failure → Option String
  | .noSchema => some "Schema not initialised - call init_language_services() first"
  | .noContexts =>
    some "Context provider factory not initialised - call init_language_services() first"
  | .notFinite => some "Out of range float values are not JSON compliant"
  | .evaluation _ | .composing _ | .resolving _ => none

def Failure.ofUnread : Document.Unread → Failure
  | .composing limitation => .composing limitation
  | .validating endless => .resolving endless

def Failure.ofHover : Hover.Failure → Failure
  | .evaluation e => .evaluation e
  | .schema endless => .resolving endless

namespace Services

def started (settings : Settings) : Services :=
  ⟨some Workflow.schema, some (.edit settings none)⟩

def stopped : Services := {}

def schemaOrFail (services : Services) : Except Failure Schema :=
  match services.schema with
  | some schema => .ok schema
  | none => .error .noSchema

def contextsOrFail (services : Services) : Except Failure ContextSource :=
  match services.contexts with
  | some contexts => .ok contexts
  | none => .error .noContexts

end Services

def version : String := "0.4.0"

def OffsetUnit.toIndex (unit : OffsetUnit) (text : Text) (offset : Int) : Int :=
  match unit with
  | .utf16 => text.indexOfUnits offset
  | .codepoint => offset

def OffsetUnit.ofIndex (unit : OffsetUnit) (text : Text) (position : Int) : Int :=
  match unit with
  | .utf16 => text.unitsOfIndex position
  | .codepoint => position

mutual

/-- Numbers that are not finite are replaced by their texts, since a reply cannot carry them. An
integer of too many digits cannot be carried at all. -/
def transportable : Value → Except EvalError Value
  | .number (.float d) => .ok (if d.isFinite then .float d else .str (Number.float d).toText)
  | .number (.int i) =>
    if digitLimit < (Text.ofNat i.natAbs).length then .error .tooManyDigits else .ok (.int i)
  | .list _ items => (transportableItems items).map (.list none)
  | .map _ entries => (transportableEntries entries).map (.map none)
  | .undefined => .ok .undefined
  | .null => .ok .null
  | .bool b => .ok (.bool b)
  | .str s => .ok (.str s)

def transportableItems : List Value → Except EvalError (List Value)
  | [] => .ok []
  | item :: items => do return (← transportable item) :: (← transportableItems items)

def transportableEntries : List (Text × Value) → Except EvalError (List (Text × Value))
  | [] => .ok []
  | (key, item) :: entries => do
    return (key, ← transportable item) :: (← transportableEntries entries)

end

mutual

def isFinite : Value → Bool
  | .number (.float d) => d.isFinite
  | .list _ items => areFinite items
  | .map _ entries => areFiniteEntries entries
  | _ => true

def areFinite : List Value → Bool
  | [] => true
  | item :: items => isFinite item && areFinite items

def areFiniteEntries : List (Text × Value) → Bool
  | [] => true
  | (_, item) :: entries => isFinite item && areFiniteEntries entries

end

def Reply.invalid (complaints : List Complaint) : Except Failure Reply :=
  if complaints.all (fun complaint => isFinite complaint.received) then
    .ok ⟨422, .complaints complaints, false⟩
  else .error .notFinite

def record (entries : List (String × Value)) : Value :=
  .record (entries.map fun (key, item) => (Text.of key, item))

def optionalText : Option Text → Value
  | some text => .str text
  | none => .null

def diagnosticValue (unit : OffsetUnit) (text : Text) (d : Diagnostic) : Value := record [
  ("kind", .text d.severity.name), ("code", .text d.code), ("message", .str d.message),
  ("start", .int (unit.ofIndex text d.start)), ("end", .int (unit.ofIndex text d.stop)),
  ("suggestions", .list none (d.suggestions.map Value.str))]

def suggestionValue (s : Suggestion) : Value := record [
  ("value", .str s.value), ("label", optionalText s.label),
  ("description", optionalText s.description)]

structure App where
  settings : Settings
  services : Services

namespace App

def document (app : App) (schema : Schema) (contexts : ContextSource) (text : Text) :
    Except Failure Document :=
  (Document.read app.settings schema contexts text).mapError .ofUnread

def validateReply (document : Document) (unit : OffsetUnit) : Except Failure Reply := do
  let workflow ← (transportable document.workflow).mapError Failure.evaluation
  return .ok (record [
    ("valid", .bool (document.diagnostics.all (fun d => d.severity ≠ .error))),
    ("workflow", workflow),
    ("diagnostics",
      .list none (document.diagnostics.map (diagnosticValue unit document.text)))])

def completeReply (suggestions : List Suggestion) : Reply :=
  .ok (record [("suggestions", .list none (suggestions.map suggestionValue))])

def hoverReply (text : Option Text) : Reply :=
  let shown : Value :=
    match text with
    | some t => record [("description", .str t)]
    | none => .null
  .ok (record [("hover", shown)])

def dropFinalFeed (path : Text) : Text :=
  if path.getLast? = some '\n' then path.dropLast else path

inductive Route
  | validate | complete | hover
  deriving DecidableEq

/-- The question that is asked under a path. A line feed at its end does not count. -/
def Route.ofPath? (path : Text) : Option Route :=
  let path := dropFinalFeed path
  if path = Text.of "/validate" then some .validate
  else if path = Text.of "/complete" then some .complete
  else if path = Text.of "/hover" then some .hover
  else none

/-- Answers a question about a document. The services are asked for before the fields of the body
are checked. -/
def answer (app : App) (route : Route) (body : Option Value) : Except Failure Reply := do
  let schema ← app.services.schemaOrFail
  let contexts ← app.services.contextsOrFail
  match route with
  | .validate =>
    match readTextForm body with
    | .error complaints => Reply.invalid complaints
    | .ok form => validateReply (← app.document schema contexts form.text) form.unit
  | .complete =>
    match readOffsetForm body with
    | .error complaints => Reply.invalid complaints
    | .ok form =>
      let document ← app.document schema contexts form.text
      let suggestions ← (document.complete contexts
        (form.unit.toIndex form.text form.offset)).mapError Failure.resolving
      return completeReply suggestions
  | .hover =>
    match readOffsetForm body with
    | .error complaints => Reply.invalid complaints
    | .ok form =>
      let document ← app.document schema contexts form.text
      let text ← (document.hover contexts (form.unit.toIndex form.text form.offset)).mapError
        Failure.ofHover
      return hoverReply text

def health : Reply := .ok (record [("status", .text "ok"), ("version", .text version)])

def notFound : Reply := .detail 404 (Text.of "Not Found")

def methodNotAllowed : Reply := .detail 405 (Text.of "Method Not Allowed")

def isHealth (path : Text) : Bool := dropFinalFeed path = Text.of "/health"

def isKnown (path : Text) : Bool := isHealth path || (Route.ofPath? path).isSome

def redirects (path : Text) : Bool :=
  path.getLast? = some '/' && isKnown (path.reverse.dropWhile (· = '/')).reverse

def faultReply : BodyFault → Except Failure Reply
  | .unreadable => .ok (.detail 400 (Text.of "There was an error parsing the body"))
  | .complaint complaint => Reply.invalid [complaint]

def dispatch (app : App) (request : Request) : Except Failure Reply :=
  match Route.ofPath? request.path with
  | some route =>
    if request.method = Text.of "POST" then
      match bodyValue request request.chunks.flatten with
      | .error fault => faultReply fault
      | .ok value => app.answer route value
    else .ok methodNotAllowed
  | none =>
    if isHealth request.path then
      .ok (if request.method = Text.of "GET" then health else methodNotAllowed)
    else if redirects request.path then .ok ⟨307, .value .null, false⟩
    else .ok notFound

/-- Answers a request: the size of its body is checked first, and every reply is timed. -/
def handle (app : App) (request : Request) : Except Failure Reply :=
  (limited app.settings.maxRequestBytes app.dispatch request).map fun reply =>
    { reply with timed := true }

end App

end Flowfile.Http
