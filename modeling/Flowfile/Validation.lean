import Flowfile.Diagnostic
import Flowfile.Schema.Resolution
import Flowfile.Text.Similar

/-!
Validation of a tree against a schema.

The tree and the schema are walked together. Each node that matches its description is entered into
an index; each one that does not is reported, and the walk goes on with its siblings. What an alias
refers to is checked where it stands. Embedded expressions are checked in every scalar, whether or
not the schema accepts it.
-/

namespace Flowfile

abbrev NodeIndex := List (Node × Terminal)

def NodeIndex.get? (entries : NodeIndex) (node : Node) : Option Terminal :=
  (entries.find? (fun entry => entry.1.id = node.id)).map (·.2)

structure Findings where
  diagnostics : List Diagnostic := []
  entries : NodeIndex := []

namespace Findings

def append (a b : Findings) : Findings := ⟨a.diagnostics ++ b.diagnostics, a.entries ++ b.entries⟩

instance : Append Findings := ⟨append⟩

def report (diagnostics : List Diagnostic) : Findings := ⟨diagnostics, []⟩

def enter (node : Node) (terminal : Terminal) : Findings := ⟨[], [(node, terminal)]⟩

end Findings

namespace Validation

def errorAt (node : Node) (code : String) (message : Text) : Diagnostic where
  code := code
  message := message
  start := node.start
  stop := node.stop

def quoted (text : Text) : Text := '\'' :: text ++ ['\'']

def shapeText : Shape → Text
  | .mapping => Text.of "a mapping"
  | .sequence => Text.of "a sequence"
  | .scalar => Text.of "a scalar value"
  | .empty => Text.of "an empty value"

def placeText (path : Path) : Text :=
  let dotted := path.dotted
  quoted (if dotted.isEmpty then Text.of "<root>" else dotted)

def shapesOf (options : List Terminal) : List Shape :=
  options.foldl
    (fun shapes option => if shapes.contains option.shape then shapes else shapes ++ [option.shape])
    []

def noMatchingShape (options : List Terminal) (node : Node) (path : Path) : List Diagnostic :=
  let expected := (shapesOf options).map shapeText
  if expected.isEmpty then []
  else
    let place := if path.isEmpty then [] else Text.of " for " ++ quoted path.dotted
    [errorAt node "NO_MATCHING_SHAPE"
      (Text.of "Expected " ++ Text.joinWith (Text.of " or ") expected ++ place ++ Text.of ", got " ++
        shapeText node.shape)]

/-- The terminal description that a node is checked against, and what is wrong if no alternative
fits it. -/
def settle (r : Resolution) (path : Path) (desc : Desc) (node : Node) :
    Except Endless (Option Terminal × List Diagnostic) :=
  match r.concrete path desc with
  | none => .ok (none, [])
  | some (.single terminal) => .ok (some terminal, [])
  | some (.oneOf about alternatives) => do
    let options ← r.options path (.oneOf about alternatives)
    match options.find? (fun terminal => terminal.fits node.shape) with
    | some terminal => return (some terminal, [])
    | none => return (none, noMatchingShape options node path)

def missingKeys (fields : Fields Desc) (present : List Text) (start stop : Nat) :
    List Diagnostic :=
  (fields.required.filter (fun name => !present.contains name)).map fun name =>
    { code := "MISSING_KEY"
      message := Text.of "Missing required key " ++ quoted name
      start := start
      stop := stop }

def unknownKey (fields : Fields Desc) (key : Node) : Diagnostic :=
  let close := Text.closeMatches key.keyText fields.names
  let hint :=
    match close with
    | [] => []
    | best :: _ => Text.of ". Did you mean " ++ quoted best ++ ['?']
  { errorAt key "UNKNOWN_KEY" (Text.of "Unknown key " ++ quoted key.keyText ++ hint) with
    suggestions := close }

def invalidKey (pattern : Option KeyPattern) (key : Node) : Diagnostic :=
  errorAt key "INVALID_KEY"
    (Text.of "Invalid key " ++ quoted key.keyText ++ Text.of ": must match " ++
      (pattern.map KeyPattern.text).getD [])

def rejectedKey (fields : Fields Desc) (key : Node) : Diagnostic :=
  if fields.fallback.isSome then invalidKey fields.keyPattern key else unknownKey fields key

def wrongShape (terminal : Terminal) (path : Path) (node : Node) : Diagnostic :=
  let code :=
    match terminal with
    | .mapping .. => "EXPECTED_MAPPING"
    | .sequence .. => "EXPECTED_SEQUENCE"
    | .scalar .. => "EXPECTED_SCALAR"
  errorAt node code
    (Text.of "Expected " ++ shapeText terminal.shape ++ Text.of " for " ++ placeText path)

def addNew (values further : List Text) : List Text :=
  further.foldl (fun all value => if all.contains value then all else all ++ [value]) values

/-- The values that a scalar may have, if they are restricted: the literals of the schema, and those
of the context where the schema leaves it the choice. -/
def allowedValues (r : Resolution) (path : Path) (choices : Choices) : Option (List Text) :=
  let literals := choices.allowed.map Choice.value
  if choices.custom then
    match (r.contextAt path).suggest path.dotted with
    | none | some [] => none
    | some extra => some (addNew literals extra)
  else if literals.isEmpty then none
  else some literals

def invalidValue (allowed : List Text) (text : Text) (node : Node) : Diagnostic :=
  { errorAt node "INVALID_VALUE"
      (Text.of "Invalid value " ++ quoted text ++ Text.of ". Allowed values: " ++
        Text.joinWith (Text.of ", ") (allowed.map quoted)) with
    suggestions := Text.closeMatches text allowed }

/-- Checks the text of a scalar. What holds an expression is not known before a run. -/
def checkText (r : Resolution) (path : Path) (choices : Choices) (text : Text) (node : Node) :
    List Diagnostic :=
  if node.isEmpty || Template.hasExpression text || (choices.find? text).isSome then []
  else
    match allowedValues r path choices with
    | none => []
    | some allowed => if allowed.contains text then [] else [invalidValue allowed text node]

/-- Checks a scalar. An implicit empty value can stand for a mapping or a sequence; keys that the
mapping would need are reported at its key. -/
def checkScalar (r : Resolution) (path : Path) (key : Option Node) (terminal : Terminal)
    (text : Text) (node : Node) : Findings :=
  match terminal with
  | .scalar _ choices =>
    .enter node terminal ++ .report (checkText r path choices text node)
  | .mapping _ fields =>
    if node.isEmpty then
      let place := key.getD node
      .enter node terminal ++ .report (missingKeys fields [] place.start place.stop)
    else .report [wrongShape terminal path node]
  | .sequence .. =>
    if node.isEmpty then .enter node terminal else .report [wrongShape terminal path node]

mutual

def visit (r : Resolution) (path : Path) (key : Option Node) (desc : Desc) :
    Node → Except Endless Findings
  | .alias info name target => do
    let node : Node := .alias info name target
    match ← settle r path desc node with
    | (none, problems) => return .report problems
    | (some terminal, _) => return .enter node terminal
  | .scalar info anchor raw value style => do
    let node : Node := .scalar info anchor raw value style
    match ← settle r path desc node with
    | (none, problems) => return .report problems
    | (some terminal, _) => return checkScalar r path key terminal raw node
  | .map info anchor flow pairs => do
    let node : Node := .map info anchor flow pairs
    match ← settle r path desc node with
    | (none, problems) => return .report problems
    | (some (.mapping about fields), _) =>
      let inner ← visitPairs r path fields pairs
      return .enter node (.mapping about fields) ++
        .report (missingKeys fields node.keys node.start node.stop) ++ inner
    | (some terminal, _) => return .report [wrongShape terminal path node]
  | .sequence info anchor flow items => do
    let node : Node := .sequence info anchor flow items
    match ← settle r path desc node with
    | (none, problems) => return .report problems
    | (some (.sequence about desc'), _) =>
      let inner ← visitItems r path desc' 0 items
      return .enter node (.sequence about desc') ++ inner
    | (some terminal, _) => return .report [wrongShape terminal path node]

def visitPairs (r : Resolution) (path : Path) (fields : Fields Desc) :
    List (Node × Node) → Except Endless Findings
  | [] => .ok {}
  | (key, value) :: rest => do
    let here ← (match fields.desc? key.keyText with
      | some desc => visit r (path ++ [.key key.keyText]) (some key) desc value
      | none => .ok (.report [rejectedKey fields key]))
    return here ++ (← visitPairs r path fields rest)

def visitItems (r : Resolution) (path : Path) (desc : Desc) (position : Nat) :
    List Node → Except Endless Findings
  | [] => .ok {}
  | item :: rest => do
    let here ← visit r (path ++ [.index position]) none desc item
    return here ++ (← visitItems r path desc (position + 1) rest)

end

def spanProblem (span : Span) : Option Text :=
  if span.closed then
    match Expr.parse span.source with
    | .ok _ => none
    | .error e => some (Text.of "Invalid expression: " ++ e.message)
  else some (Text.of "Expression is missing its closing '\x7d\x7d'")

/-- Checks the expressions in a scalar. Where its text stands in the source as it is, the problem is
reported at the expression, otherwise at the scalar. -/
def checkSpans (info : NodeInfo) (raw : Text) (style : Option Yaml.Style) : List Diagnostic :=
  let exact := style.isNone && info.stop = info.start + raw.length
  (Template.spans raw).filterMap fun span =>
    (spanProblem span).map fun message =>
      { code := "INVALID_EXPRESSION"
        message := message
        start := if exact then info.start + span.start else info.start
        stop := if exact then info.start + span.stop else info.stop }

mutual

def checkExpressions : Node → List Diagnostic
  | .scalar info _ raw _ style => checkSpans info raw style
  | .map _ _ _ pairs => checkPairs pairs
  | .sequence _ _ _ items => checkItems items
  | .alias .. => []

def checkPairs : List (Node × Node) → List Diagnostic
  | [] => []
  | (key, value) :: rest => checkExpressions key ++ checkExpressions value ++ checkPairs rest

def checkItems : List Node → List Diagnostic
  | [] => []
  | item :: rest => checkExpressions item ++ checkItems rest

end

def checkAbsent (r : Resolution) (desc : Desc) : Findings :=
  match r.concrete [] desc with
  | some (.single (.mapping _ fields)) => .report (missingKeys fields [] 0 0)
  | _ => {}

end Validation

/-- Validates a tree: findings about the schema first, then those about expressions. -/
def validate (r : Resolution) (desc : Desc) (root : Option Node) : Except Endless Findings :=
  match root with
  | none => .ok (Validation.checkAbsent r desc)
  | some node => do
    let found ← Validation.visit r [] none desc node
    return found ++ .report (Validation.checkExpressions node)

end Flowfile
