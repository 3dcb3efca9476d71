import Flowfile.Document

/-!
Completion: what can be typed at an offset of a document.
-/

namespace Flowfile

structure Suggestion where
  value : Text
  label : Option Text := none
  description : Option Text := none
  deriving DecidableEq

namespace Completion

def keySuggestions (r : Resolution) (fields : Fields Desc) (exclude : List Text) :
    List Suggestion :=
  (fields.properties.filter (fun property => !exclude.contains property.name)).map fun property =>
    ⟨property.name, none, r.describe property.desc⟩

def valueSuggestions (r : Resolution) (path : Path) (choices : Choices) : List Suggestion :=
  let further :=
    if choices.custom then ((r.contextAt path).suggest path.dotted).getD [] else []
  choices.allowed.map (fun choice => ⟨choice.value, choice.label, choice.description⟩) ++
    further.map (fun value => ⟨value, none, none⟩)

def valueCandidates (r : Resolution) (path : Path) (options : List Terminal) : List Suggestion :=
  options.flatMap fun
    | .scalar _ choices => valueSuggestions r path choices
    | _ => []

def keyCandidates (r : Resolution) (options : List Terminal) : List Suggestion :=
  options.flatMap fun
    | .mapping _ fields => keySuggestions r fields []
    | _ => []

def candidates (r : Resolution) (path : Path) (options : List Terminal) : List Suggestion :=
  options.flatMap fun
    | .scalar _ choices => valueSuggestions r path choices
    | .mapping _ fields => keySuggestions r fields []
    | .sequence .. => []

def siblingValues (parent current : Option Node) : List Text :=
  match parent with
  | some (.sequence _ _ _ items) =>
    items.filterMap fun item =>
      match item with
      | .scalar _ _ raw _ _ =>
        if item.isEmpty || current.any (fun node => node.id = item.id) then none else some raw
      | _ => none
  | _ => []

def endsWord (c : Char) : Bool :=
  Text.isBlank c || [':', '[', ']', ',', '\x7b', '\x7d', '\'', '"'].contains c

def typedWord (text : Text) (offset : Nat) : Text :=
  let line := text.slice (Text.lineStart text offset) offset
  (line.reverse.takeWhile (fun c => !endsWord c)).reverse

structure Offer where
  suggestions : List Suggestion := []
  typed : Text := []

def Offer.without (offer : Offer) (exclude : List Text) : Offer :=
  { offer with
    suggestions := offer.suggestions.filter (fun suggestion => !exclude.contains suggestion.value) }

def optionsAt (document : Document) (r : Resolution) (path : Path) :
    Except Endless (List Terminal) := do
  match ← r.descAt document.root document.schema.root path with
  | none => return []
  | some (desc, _) => r.options path desc

def onKey (document : Document) (r : Resolution) (offset : Nat) (location : Location) :
    Except Endless Offer := do
  match ← document.fieldsAt r location.parent location.path.dropLast, location.node with
  | some fields, some key =>
    let keys := (location.parent.map Node.keys).getD []
    let siblings :=
      match key with
      | .scalar _ _ raw _ _ => keys.filter (· ≠ raw)
      | _ => keys
    return ⟨keySuggestions r fields siblings, document.text.slice key.start (min offset key.stop)⟩
  | _, _ => return {}

/-- Values in place of the one under the cursor. A bare word where only a mapping fits is the start
of a key. -/
def onValue (document : Document) (r : Resolution) (offset : Nat) (location : Location) :
    Except Endless Offer :=
  match location.node with
  | some (.scalar info anchor raw value style) => do
    let node : Node := .scalar info anchor raw value style
    let typed := document.text.slice info.start offset
    let isQuoted := style = some .singleQuoted || style = some .doubleQuoted
    let options ← (match document.entries.get? node with
      | some terminal => .ok [terminal]
      | none => optionsAt document r location.path)
    let values := valueCandidates r location.path options
    let suggestions := if values.isEmpty then keyCandidates r options else values
    return Offer.without ⟨suggestions, if isQuoted then typed.drop 1 else typed⟩
      (siblingValues location.parent (some node))
  | _ => .ok {}

def onEmpty (document : Document) (r : Resolution) (offset : Nat) (location : Location) :
    Except Endless Offer :=
  let typed := typedWord document.text offset
  match location.node with
  | some (.map info anchor flow pairs) => do
    let node : Node := .map info anchor flow pairs
    match ← document.fieldsAt r (some node) location.path with
    | none => return ⟨[], typed⟩
    | some fields => return ⟨keySuggestions r fields node.keys, typed⟩
  | some (.sequence info anchor flow items) => do
    let path := location.path ++ [.index items.length]
    let options ← optionsAt document r path
    return Offer.without ⟨candidates r path options, typed⟩
      (siblingValues (some (.sequence info anchor flow items)) none)
  | node => do
    let options ← optionsAt document r location.path
    return Offer.without ⟨candidates r location.path options, typed⟩
      (siblingValues location.parent node)

def offerAt (document : Document) (r : Resolution) (offset : Nat) : Except Endless Offer :=
  let location := locate document.root document.text offset
  match location.region with
  | .key => onKey document r offset location
  | .value => onValue document r offset location
  | .empty => onEmpty document r offset location

/-- The first suggestion of each value; `seen` holds the values of earlier ones. -/
def firsts (seen : List Text) : List Suggestion → List Suggestion
  | [] => []
  | suggestion :: rest =>
    if seen.contains suggestion.value then firsts seen rest
    else suggestion :: firsts (suggestion.value :: seen) rest

def Offer.narrowed (offer : Offer) : List Suggestion :=
  firsts [] (offer.suggestions.filter (fun suggestion => offer.typed.isPrefixOf suggestion.value))

end Completion

/-- Suggestions at an offset; outside the text there are none. -/
def Document.complete (document : Document) (contexts : ContextSource) (offset : Int) :
    Except Endless (List Suggestion) :=
  if document.holds offset then
    (Completion.offerAt document (document.resolution contexts) offset.toNat).map
      Completion.Offer.narrowed
  else .ok []

end Flowfile
