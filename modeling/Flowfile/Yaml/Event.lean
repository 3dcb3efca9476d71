import Flowfile.Yaml.Token.Stream

/-!
The grammar of YAML: tokens are put together into events, which start and end documents and
collections and name scalars and aliases.

The grammar is a machine with a stack of places to go on from. Each step takes what tokens it needs
and gives one event.
-/

namespace Flowfile.Yaml

inductive Event
  | streamStart
  | streamEnd
  | version (version : Version)
  | documentStart (start : Mark)
  | documentEnd
  | alias (name : Text) (start : Mark)
  /-- A scalar; `plain` tells whether what it stands for is left to its text. -/
  | scalar (anchor : Option Text) (value : Text) (style : Option Style) (plain : Bool)
    (start stop : Mark)
  | sequenceStart (anchor : Option Text) (flow : Bool) (start : Mark)
  | sequenceEnd (stop : Mark)
  | mappingStart (anchor : Option Text) (flow : Bool) (start : Mark)
  | mappingEnd (stop : Mark)
  deriving DecidableEq

namespace Grammar

inductive Place
  | streamStart
  | implicitDocument
  | documentStart
  | explicitDocument
  | documentContent
  | documentEnd
  | blockNode
  | blockSequenceFirst
  | blockSequenceEntry
  | indentlessEntry
  | blockMappingFirst
  | blockMappingKey
  | blockMappingValue
  | flowSequenceFirst
  | flowSequenceEntry
  | flowPairKey
  | flowPairValue
  | flowPairEnd
  | flowMappingFirst
  | flowMappingKey
  | flowMappingValue
  | flowMappingEmptyValue
  deriving DecidableEq

structure State where
  scanner : Scanner
  /-- Where to go on; none at the end of the stream. -/
  place : Option Place := some .streamStart
  stack : List Place := []
  /-- Where the open collections start. -/
  marks : List Mark := []
  handles : List Text := []

abbrev Parse := StateT State (Except Failure)

def peek : Parse Token := fun s => do
  let (token, scanner) ← s.scanner.peekToken
  return (token, { s with scanner := scanner })

def take : Parse Token := fun s => do
  let (token, scanner) ← s.scanner.takeToken
  return (token, { s with scanner := scanner })

def nextIs (test : Token.Kind → Bool) : Parse Bool := do return test (← peek).kind

def goTo (place : Place) : Parse Unit := modify fun s => { s with place := some place }

def afterwards (place : Place) : Parse Unit := modify fun s => { s with stack := place :: s.stack }

def leave : Parse Unit := modify fun s => { s with place := s.stack.head?, stack := s.stack.drop 1 }

def openAt (mark : Mark) : Parse Unit := modify fun s => { s with marks := mark :: s.marks }

def close : Parse Unit := modify fun s => { s with marks := s.marks.drop 1 }

def openedAt : Parse (Option Mark) := do return (← get).marks.head?

def version : Parse Version := do return (← get).scanner.version

def tokenName (token : Token) : Text := Text.of (Token.name token.kind)

/-- Hands the comments of a token on to the next one; not to the end of the stream or the start of a
document. Gives the token as it is left. -/
def passComments (token : Token) (ofColon : Bool) : Parse Token := do
  let next ← peek
  match token.comments with
  | none => return token
  | some moved =>
    if next.kind = .streamEnd || next.kind = .documentStart then return token
    else
      let scanner ← (← get).scanner.receiveComments moved ofColon
      modify fun s => { s with scanner := scanner }
      return { token with comments := none }

def passComment (token : Token) : Parse Unit := do let _ ← passComments token false

/-- As `passComment`, but the comments are dropped where the next token has its own. -/
def passCommentIfFree (token : Token) : Parse Unit := do
  let next ← peek
  match token.comments, next.comments with
  | some moved, some present => if moved.overlap present then pure () else passComment token
  | _, _ => passComment token

def editComments (change : Comments → Comments) : Parse Unit :=
  modify fun s => { s with scanner := s.scanner.editComments change }

def emptyScalar (mark : Mark) : Event := .scalar none [] none true mark mark

/-- The version that the directives of a document name, if they do; fails on a second or a foreign
version, and on a handle declared twice. -/
def directives : Nat → Option Version → Parse (Option Version)
  | 0, named => pure named
  | fuel + 1, named => do
    match (← peek).kind with
    | .directive found =>
      let token ← take
      match found with
      | .version version =>
        if named.isSome then throw (.grammar .duplicateVersion none token.start)
        else if version.major ≠ 1 then throw (.grammar .incompatibleVersion none token.start)
        else directives fuel (some version)
      | .tagHandle handle =>
        if (← get).handles.contains handle then
          throw (.grammar (.duplicateHandle handle) none token.start)
        else
          modify fun s => { s with handles := s.handles ++ [handle] }
          directives fuel named
      | .other => directives fuel named
    | _ => pure named

def defaultHandles : List Text := [['!'], ['!', '!']]

/-! ### Nodes -/

structure Properties where
  anchor : Option Text := none
  tag : Option Bool := none
  span : Option (Mark × Mark) := none

def Properties.untyped (props : Properties) : Bool := props.tag.getD true

def checkHandle (handle : Option Text) (start tagMark : Mark) : Parse Unit := do
  match handle with
  | some handle =>
    if (← get).handles.contains handle then pure ()
    else throw (.grammar (.undefinedHandle handle) (some start) tagMark)
  | none => pure ()

def properties : Parse Properties := do
  match (← peek).kind with
  | .anchor name =>
    let first ← take
    passComment first
    match (← peek).kind with
    | .tag handle bare =>
      let second ← take
      checkHandle handle first.start second.start
      return ⟨some name, some bare, some (first.start, second.stop)⟩
    | _ => return ⟨some name, none, some (first.start, first.stop)⟩
  | .tag handle bare =>
    let first ← take
    passCommentIfFree first
    match (← peek).kind with
    | .anchor name =>
      let second ← take
      checkHandle handle second.start second.start
      return ⟨some name, some bare, some (second.start, second.stop)⟩
    | _ =>
      checkHandle handle first.start first.start
      return ⟨none, some bare, some (first.start, first.stop)⟩
  | _ => return {}

/-- A node with its properties. Block collections are allowed in block context only, and a sequence
without indentation only as the value of a mapping. -/
def nodeContent (block indentless : Bool) : Parse Event := do
  let props ← properties
  let first ← peek
  let start := (props.span.map (·.1)).getD first.start
  match first.kind, block with
  | .blockEntry, _ =>
    if indentless then
      editComments fun comments => { comments with after := none }
      goTo .indentlessEntry
      return .sequenceStart props.anchor false start
    else empty props first start
  | .scalar value style, _ =>
    let token ← take
    leave
    return .scalar props.anchor value style (style.isNone && props.tag.isNone || props.tag = some true)
      start token.stop
  | .flowSequenceStart, _ =>
    goTo .flowSequenceFirst
    return .sequenceStart props.anchor true start
  | .flowMappingStart, _ =>
    goTo .flowMappingFirst
    return .mappingStart props.anchor true start
  | .blockSequenceStart, true =>
    goTo .blockSequenceFirst
    return .sequenceStart props.anchor false start
  | .blockMappingStart, true =>
    goTo .blockMappingFirst
    return .mappingStart props.anchor false start
  | _, _ => empty props first start
where
  empty (props : Properties) (first : Token) (start : Mark) : Parse Event := do
    match props.span with
    | some (_, stop) =>
      leave
      return .scalar props.anchor [] none props.untyped start stop
    | none => throw (.grammar (.expectedContent (tokenName first)) (some start) first.start)

def node (block indentless : Bool) : Parse Event := do
  let first ← peek
  match first.kind with
  | .alias name =>
    let token ← take
    passComment token
    leave
    return .alias name token.start
  | _ => nodeContent block indentless

/-! ### Documents -/

def skipDocumentEnds : Nat → Parse Unit
  | 0 => pure ()
  | fuel + 1 => do
    if ← nextIs (· = .documentEnd) then
      let _ ← take
      skipDocumentEnds fuel
    else pure ()

def fuel : Parse Nat := do return (← get).scanner.fuel + (← get).scanner.tokens.length

def explicitDocument : Parse Event := do
  let next ← peek
  if next.kind = .documentStart then
    let token ← take
    afterwards .documentEnd
    goTo .documentContent
    return .documentStart token.start
  else throw (.grammar (.expectedDocumentStart (tokenName next)) none next.start)

def documentStart : Parse Event := do
  skipDocumentEnds (← fuel)
  if ← nextIs (· = .streamEnd) then
    let _ ← take
    modify fun s => { s with place := none }
    return .streamEnd
  else
    modify fun s => { s with handles := [] }
    let named ← directives (← fuel) none
    modify fun s => { s with handles := s.handles ++ defaultHandles }
    match named with
    | some version =>
      if version.isKnown then
        goTo .explicitDocument
        return .version version
      else throw (.beyond .unsupportedVersion)
    | none => explicitDocument

def implicitDocument : Parse Event := do
  let next ← peek
  match next.kind with
  | .directive _ | .documentStart | .streamEnd => documentStart
  | _ =>
    modify fun s => { s with handles := defaultHandles }
    afterwards .documentEnd
    goTo .blockNode
    return .documentStart next.start

def documentContent : Parse Event := do
  let next ← peek
  match next.kind with
  | .directive _ | .documentStart | .documentEnd | .streamEnd =>
    leave
    return emptyScalar next.start
  | _ => node true false

def documentEnd : Parse Event := do
  let next ← peek
  if next.kind = .documentEnd then
    let token ← take
    let after ← peek
    if after.kind ≠ .streamEnd && token.stop.line = after.start.line then
      throw (.grammar (.contentAfterDocument (tokenName after)) none after.start)
    goTo (if (← version) = .old then .documentStart else .implicitDocument)
  else goTo .documentStart
  return .documentEnd

/-! ### Block collections -/

def blockEnd (event : Mark → Event) (passes : Bool) : Parse Event := do
  let next ← peek
  if next.kind = .blockEnd then
    let token ← take
    if passes then passComment token
    leave
    close
    return event token.stop
  else throw (.grammar (.expectedBlockEnd (tokenName next)) (← openedAt) next.start)

def blockSequenceEntry : Parse Event := do
  if ← nextIs (· = .blockEntry) then
    let token ← take
    passComment token
    if ← nextIs (fun kind => kind = .blockEntry || kind = .blockEnd) then
      goTo .blockSequenceEntry
      return emptyScalar token.stop
    else
      afterwards .blockSequenceEntry
      node true false
  else blockEnd .sequenceEnd false

def endsIndentlessEntry (kind : Token.Kind) : Bool :=
  kind = .blockEntry || kind = .key || kind = .value || kind = .blockEnd

def indentlessEntry : Parse Event := do
  if ← nextIs (· = .blockEntry) then
    let token ← take
    passComment token
    if ← nextIs endsIndentlessEntry then
      goTo .indentlessEntry
      return emptyScalar token.stop
    else
      afterwards .indentlessEntry
      node true false
  else
    let next ← peek
    editComments fun comments => { comments with before := none }
    leave
    return .sequenceEnd next.start

def endsBlockValue (kind : Token.Kind) : Bool := kind = .key || kind = .value || kind = .blockEnd

def blockMappingKey : Parse Event := do
  let next ← peek
  if next.kind = .key then
    let token ← take
    passComment token
    if ← nextIs endsBlockValue then
      goTo .blockMappingValue
      return emptyScalar token.stop
    else
      afterwards .blockMappingValue
      node true true
  else if next.kind = .value && (← version).isModern then
    goTo .blockMappingValue
    return emptyScalar next.start
  else blockEnd .mappingEnd true

def blockMappingValue : Parse Event := do
  let next ← peek
  if next.kind = .value then
    let token ← take
    let next ← peek
    let token ←
      if next.kind = .key then pure token else passComments token (next.kind ≠ .value)
    if endsBlockValue next.kind then
      goTo .blockMappingKey
      if token.comments.isSome then return emptyScalar token.stop
      else
        editComments fun comments => ⟨none, comments.before, none⟩
        return emptyScalar next.stop
    else
      afterwards .blockMappingKey
      node true true
  else
    goTo .blockMappingKey
    return emptyScalar next.start

/-! ### Flow collections -/

def flowEnd (event : Mark → Event) : Parse Event := do
  let token ← take
  leave
  close
  return event token.stop

def flowComma (first : Bool) (problem : Text → Problem) : Parse Unit := do
  if first then pure ()
  else
    let next ← peek
    if next.kind = .flowEntry then
      let _ ← take
      pure ()
    else throw (.grammar (problem (tokenName next)) (← openedAt) next.start)

def flowSequenceEntry (first : Bool) : Parse Event := do
  if ← nextIs (· = .flowSequenceEnd) then flowEnd .sequenceEnd
  else
    flowComma first .expectedCommaOrBracket
    let next ← peek
    if next.kind = .key then
      goTo .flowPairKey
      return .mappingStart none true next.start
    else if next.kind = .flowSequenceEnd then flowEnd .sequenceEnd
    else
      afterwards .flowSequenceEntry
      node false false

def flowPairKey : Parse Event := do
  let token ← take
  if ← nextIs (fun kind => kind = .value || kind = .flowEntry || kind = .flowSequenceEnd) then
    goTo .flowPairValue
    return emptyScalar token.stop
  else
    afterwards .flowPairValue
    node false false

def flowPairValue : Parse Event := do
  let next ← peek
  if next.kind = .value then
    let token ← take
    if ← nextIs (fun kind => kind = .flowEntry || kind = .flowSequenceEnd) then
      goTo .flowPairEnd
      return emptyScalar token.stop
    else
      afterwards .flowPairEnd
      node false false
  else
    goTo .flowPairEnd
    return emptyScalar next.start

def flowPairEnd : Parse Event := do
  goTo .flowSequenceEntry
  return .mappingEnd (← peek).start

def flowMappingKey (first : Bool) : Parse Event := do
  if ← nextIs (· = .flowMappingEnd) then flowEnd .mappingEnd
  else
    flowComma first .expectedCommaOrBrace
    let next ← peek
    if next.kind = .key then
      let token ← take
      if ← nextIs (fun kind => kind = .value || kind = .flowEntry || kind = .flowMappingEnd) then
        goTo .flowMappingValue
        return emptyScalar token.stop
      else
        afterwards .flowMappingValue
        node false false
    else if next.kind = .value && (← version).isModern then
      goTo .flowMappingValue
      return emptyScalar next.stop
    else if next.kind = .flowMappingEnd then flowEnd .mappingEnd
    else
      afterwards .flowMappingEmptyValue
      node false false

def flowMappingValue : Parse Event := do
  let next ← peek
  if next.kind = .value then
    let token ← take
    if ← nextIs (fun kind => kind = .flowEntry || kind = .flowMappingEnd) then
      goTo .flowMappingKey
      return emptyScalar token.stop
    else
      afterwards .flowMappingKey
      node false false
  else
    goTo .flowMappingKey
    return emptyScalar next.start

def flowMappingEmptyValue : Parse Event := do
  goTo .flowMappingKey
  return emptyScalar (← peek).start

/-! ### The machine -/

def opening : Parse Token := do
  let token ← take
  openAt token.start
  return token

def step : Place → Parse Event
  | .streamStart => do
    passComment (← take)
    goTo .implicitDocument
    return .streamStart
  | .implicitDocument => implicitDocument
  | .documentStart => documentStart
  | .explicitDocument => explicitDocument
  | .documentContent => documentContent
  | .documentEnd => documentEnd
  | .blockNode => node true false
  | .blockSequenceFirst => do
    let _ ← opening
    blockSequenceEntry
  | .blockSequenceEntry => blockSequenceEntry
  | .indentlessEntry => indentlessEntry
  | .blockMappingFirst => do
    let _ ← opening
    blockMappingKey
  | .blockMappingKey => blockMappingKey
  | .blockMappingValue => blockMappingValue
  | .flowSequenceFirst => do
    let _ ← opening
    flowSequenceEntry true
  | .flowSequenceEntry => flowSequenceEntry false
  | .flowPairKey => flowPairKey
  | .flowPairValue => flowPairValue
  | .flowPairEnd => flowPairEnd
  | .flowMappingFirst => do
    let _ ← opening
    flowMappingKey true
  | .flowMappingKey => flowMappingKey false
  | .flowMappingValue => flowMappingValue
  | .flowMappingEmptyValue => flowMappingEmptyValue

/-- Whether it can be told what the scalar of an event stands for. -/
def resolves (version : Version) : Event → Bool
  | .scalar _ _ _ plain _ _ => !plain || version.isKnown
  | _ => true

def run : Nat → State → List Event × Option Failure
  | 0, _ => ([], none)
  | fuel + 1, s =>
    match s.place with
    | none => ([], none)
    | some place =>
      match step place s with
      | .error e => ([], some e)
      | .ok (event, next) =>
        if resolves next.scanner.version event then
          let (events, fault) := run fuel next
          (event :: events, fault)
        else ([], some (.beyond .unresolvedScalar))

end Grammar

def isAcceptable (c : Char) : Bool :=
  let n := c.toNat
  n = 0x09 || n = 0x0A || n = 0x0D || (0x20 ≤ n && n ≤ 0x7E) || n = 0x85 ||
    (0xA0 ≤ n && n ≤ 0xD7FF) || (0xE000 ≤ n && n ≤ 0xFFFD) || 0x10000 ≤ n

def events (base : Version) (text : Text) : List Event × Option Failure :=
  match text.find? (fun c => !isAcceptable c) with
  | some c =>
    let problem := Problem.unacceptableCharacter c
    ([], some (.malformed ⟨problem, some (text.takeWhile isAcceptable).length, none, true⟩))
  | none => Grammar.run (10 * text.length + 20) { scanner := .ofText base text }

end Flowfile.Yaml
