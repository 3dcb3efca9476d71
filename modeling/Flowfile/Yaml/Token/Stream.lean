import Flowfile.Yaml.Token.Property

/-! The stream of tokens.

Tokens are read on demand. A token that may turn out to be a key is held back until a colon follows
or none can follow any more, and one token more than needed is always read ahead. Indentation is
made explicit: block collections have tokens for where they start and end. -/

namespace Flowfile.Yaml.Scanner

def fail {α : Type} (s : Scanner) (problem : Problem) : Except Failure α :=
  .error (.scanning problem none s.cursor)

def missingColon (s : Scanner) (key : SimpleKey) : Failure :=
  .scanning .expectedColon (some key.mark) s.cursor

/-- A possible key is given up on another line, or after 1024 characters. -/
def isStale (s : Scanner) (key : SimpleKey) : Bool :=
  key.mark.line ≠ s.cursor.mark.line || 1024 < s.cursor.index - key.mark.index

def dropStaleKeys (s : Scanner) : Except Failure Scanner :=
  match s.simpleKeys.find? (fun entry => s.isStale entry.2 && entry.2.required) with
  | some (_, key) => .error (s.missingColon key)
  | none =>
    .ok { s with simpleKeys := s.simpleKeys.filter (fun entry => !s.isStale entry.2) }

def dropKey (s : Scanner) : Except Failure Scanner :=
  match s.simpleKeys.lookup s.flowLevel with
  | some key =>
    if key.required then .error (s.missingColon key)
    else .ok { s with simpleKeys := s.simpleKeys.filter (fun entry => entry.1 ≠ s.flowLevel) }
  | none => .ok s

def saveKey (s : Scanner) : Except Failure Scanner :=
  if s.keysAllowed then do
    let required : Bool := !s.inFlow && s.indent = s.cursor.column
    let s ← s.dropKey
    let key : SimpleKey := ⟨s.taken + s.tokens.length, required, s.cursor.mark⟩
    return { s with simpleKeys := (s.flowLevel, key) :: s.simpleKeys }
  else .ok s

def unwindTo (s : Scanner) (column : Int) : Scanner :=
  if s.inFlow then s
  else
    let rec go : Int → List Int → Scanner → Scanner
      | indent, [], s => { s with indent := indent, indents := [] }
      | indent, outer :: indents, s =>
        if column < indent then go outer indents (s.pushHere .blockEnd)
        else { s with indent := indent, indents := outer :: indents }
    go s.indent s.indents s

def indentTo (s : Scanner) (column : Nat) : Bool × Scanner :=
  if s.indent < column then
    (true, { s with indent := column, indents := s.indent :: s.indents })
  else (false, s)

/-! ### Between tokens -/

def breaks : Nat → Cursor → Text × Cursor
  | 0, cursor => ([], cursor)
  | fuel + 1, cursor =>
    if isBreak cursor.peek then
      let (broken, after) := cursor.lineBreak
      let (more, last) := breaks fuel after
      (broken ++ more, last)
    else ([], cursor)

def blankRun : Nat → Cursor → Text × Cursor
  | 0, cursor => ([], cursor)
  | fuel + 1, cursor =>
    if isTabOrSpace cursor.peek then
      let (more, last) := blankRun fuel cursor.next
      (cursor.peek :: more, last)
    else if isBreak cursor.peek then
      let (broken, after) := cursor.lineBreak
      let (more, last) := blankRun fuel after
      (broken ++ more, last)
    else ([], cursor)

/-- A comment, at its sign, with the empty lines after it. At the end of the text it is given the
line break that it lacks. -/
def commentText (cursor : Cursor) : Text × Cursor :=
  let line := cursor.rest.takeWhile (fun c => !isEnd c)
  let stop := cursor.forward line.length
  let last := if isBreak stop.peek then stop.peek else '\n'
  let (more, after) := breaks stop.fuel stop.next
  (line ++ last :: more, after)

/-- Empty lines, at the break of the first. The indentation of a comment after them is left out. -/
def emptyLines (cursor : Cursor) : Text × Cursor :=
  let (run, after) := blankRun cursor.fuel cursor
  if after.peek = '#' then ((run.reverse.dropWhile (· ≠ '\n')).reverse, after) else (run, after)

structure Gap where
  text : Text
  start : Mark

def Gap.comment (gap : Gap) : Comment :=
  ⟨(gap.text.reverse.dropWhile (· = ' ')).reverse, gap.start.line, gap.start.column⟩

/-- Passes what stands between tokens, up to a token or the end of a comment or of a run of empty
lines, which is then given. -/
def skipGap : Nat → Scanner → Option Gap × Scanner
  | 0, s => (none, s)
  | fuel + 1, s =>
    let here := s.cursor.skipWhile (fun c => c = ' ' || (s.inFlow && c = '\t'))
    let keysAllowed := s.keysAllowed || !s.inFlow
    if here.peek = '#' then
      let (text, after) := commentText here
      (some ⟨text, here.mark⟩, { s with cursor := after, keysAllowed := keysAllowed })
    else if isBreak here.peek then
      let after := here.lineBreak.2
      if after.peek = '\n' then
        let (text, last) := emptyLines after
        (some ⟨text, after.mark⟩, { s with cursor := last, keysAllowed := keysAllowed })
      else skipGap fuel { s with cursor := after, keysAllowed := keysAllowed }
    else (none, { s with cursor := here })

def nextGap (s : Scanner) : Option Gap × Scanner :=
  let s :=
    if s.cursor.index = 0 && s.cursor.peek = '\uFEFF' then { s with cursor := s.cursor.next } else s
  skipGap s.cursor.fuel s

def skipGaps : Nat → Scanner → Text × Scanner
  | 0, s => ([], s)
  | fuel + 1, s =>
    match s.nextGap with
    | (some gap, after) =>
      let (more, last) := skipGaps fuel after
      (List.replicate gap.start.column ' ' ++ gap.text ++ more, last)
    | (none, after) => ([], after)

/-! ### Tokens -/

def fetchStreamEnd (s : Scanner) : Except Failure Scanner := do
  let s ← (s.unwindTo (-1)).dropKey
  return { s.pushHere .streamEnd with keysAllowed := false, simpleKeys := [], done := true }

def fetchDirective (s : Scanner) : Except Failure Scanner := do
  let s ← (s.unwindTo (-1)).dropKey
  let (result, stop, after) ← directive s.version s.cursor
  let named :=
    match result with
    | .version version => some version
    | _ => s.named
  return { s.push ⟨.directive result, s.cursor.mark, stop, none⟩ with
    cursor := after, keysAllowed := false, named := named }

def fetchMarker (s : Scanner) (kind : Token.Kind) : Except Failure Scanner := do
  let s ← (s.unwindTo (-1)).dropKey
  return { s.pushSized kind 3 with keysAllowed := false }

def fetchFlowStart (s : Scanner) (kind : Token.Kind) (bracket : Bracket) :
    Except Failure Scanner := do
  let s ← s.saveKey
  return { s.pushSized kind 1 with keysAllowed := true, brackets := bracket :: s.brackets }

def fetchFlowEnd (s : Scanner) (kind : Token.Kind) : Except Failure Scanner := do
  let s ← s.dropKey
  return { s.pushSized kind 1 with keysAllowed := false, brackets := s.brackets.drop 1 }

def fetchFlowEntry (s : Scanner) : Except Failure Scanner := do
  let s ← s.dropKey
  return { s.pushSized .flowEntry 1 with keysAllowed := true }

def fetchBlockEntry (s : Scanner) : Except Failure Scanner := do
  let s ←
    if s.inFlow then pure s
    else if !s.keysAllowed then s.fail .entriesNotAllowed
    else
      let (starts, s) := s.indentTo s.cursor.column
      pure (if starts then s.pushHere .blockSequenceStart else s)
  let s ← s.dropKey
  return { s.pushSized .blockEntry 1 with keysAllowed := true }

def fetchKey (s : Scanner) : Except Failure Scanner := do
  let s ←
    if s.inFlow then pure s
    else if !s.keysAllowed then s.fail .keysNotAllowed
    else
      let (starts, s) := s.indentTo s.cursor.column
      pure (if starts then s.pushHere .blockMappingStart else s)
  let s ← s.dropKey
  return { s.pushSized .key 1 with keysAllowed := !s.inFlow }

/-- Puts tokens in front of one that has turned out to be a key. -/
def insertAt (tokens : List Token) (position : Nat) (added : List Token) : List Token :=
  tokens.take position ++ added ++ tokens.drop position

def fetchValue (s : Scanner) : Except Failure Scanner := do
  match s.simpleKeys.lookup s.flowLevel with
  | some key =>
    let s := { s with simpleKeys := s.simpleKeys.filter (fun entry => entry.1 ≠ s.flowLevel) }
    let (starts, s) := if s.inFlow then (false, s) else s.indentTo key.mark.column
    let added : List Token :=
      (if starts then [⟨.blockMappingStart, key.mark, key.mark, none⟩] else []) ++
        [⟨.key, key.mark, key.mark, none⟩]
    let s := { s with tokens := insertAt s.tokens (key.token - s.taken) added }
    return { s.pushSized .value 1 with keysAllowed := false }
  | none =>
    let s ←
      if s.inFlow then pure s
      else if !s.keysAllowed then s.fail .valuesNotAllowed
      else
        let (starts, s) := s.indentTo s.cursor.column
        pure (if starts then s.pushHere .blockMappingStart else s)
    return { s.pushSized .value 1 with keysAllowed := !s.inFlow }

def fetchAnchor (s : Scanner) (kind : Text → Token.Kind) : Except Failure Scanner := do
  let s ← s.saveKey
  let (name, after) ← anchorName s.cursor
  return { s.push ⟨kind name, s.cursor.mark, after.mark, none⟩ with
    cursor := after, keysAllowed := false }

def fetchTag (s : Scanner) : Except Failure Scanner := do
  let s ← s.saveKey
  let (found, after) ← tag s.version s.cursor
  return { s.push ⟨.tag found.handle found.bare, s.cursor.mark, after.mark, none⟩ with
    cursor := after, keysAllowed := false }

/-- A block scalar. The blank lines that it leaves out belong to it, with the comments after them.
-/
def fetchBlockScalar (s : Scanner) (folded : Bool) : Except Failure Scanner := do
  let s ← { s with keysAllowed := true }.dropKey
  let scalar ← blockScalar folded s.indent s.cursor
  let style := if folded then Style.folded else .literal
  let start := s.cursor.mark
  let stop := scalar.stop
  let here := { s with cursor := scalar.cursor }
  let (passed, after) := if scalar.trailing.isEmpty then ([], here) else skipGaps here.cursor.fuel here
  let trailing : Option Comment :=
    if scalar.trailing.isEmpty then none
    else some ⟨scalar.trailing ++ passed, stop.line, stop.column⟩
  let comments : Option Comments :=
    if scalar.comment.isNone && trailing.isNone then none
    else some ⟨trailing, scalar.comment.map Lead.header, none⟩
  return after.push ⟨.scalar scalar.value (some style), start, stop, comments⟩

def fetchQuoted (s : Scanner) (double : Bool) : Except Failure Scanner := do
  let s ← s.saveKey
  let (value, after) ← quotedScalar double s.cursor
  let style := if double then Style.doubleQuoted else .singleQuoted
  return { s.push ⟨.scalar value (some style), s.cursor.mark, after.mark, none⟩ with
    cursor := after, keysAllowed := false }

def fetchPlain (s : Scanner) : Except Failure Scanner := do
  let s ← s.saveKey
  let start := s.cursor.mark
  let scalar := plainScalar s.inFlow s.version (s.indent + 1) s.cursor
  let comments : Option Comments :=
    scalar.emptyLines?.map fun lines => { after := some ⟨lines, start.line, start.column⟩ }
  return { s.push ⟨.scalar scalar.value none, start, scalar.stop, comments⟩ with
    cursor := scalar.cursor, keysAllowed := scalar.broke }

def colonIsValue (s : Scanner) : Bool :=
  let spaced := isGap (s.cursor.peekAt 1)
  match s.brackets with
  | [] => spaced
  | bracket :: _ =>
    s.version = .old ||
      match bracket with
      | .square => spaced
      | .curly => spaced || (s.tokens.getLast?.map Token.kind) ≠ some .value

def plainStarts (s : Scanner) : Bool :=
  let c := s.cursor.peek
  let next := s.cursor.peekAt 1
  if !(isGap c || (Text.of "-?:,[]\x7b\x7d#&*!|>'\"%@\x60").contains c) then true
  else if c = '-' then !isGap next
  else if c = ':' && s.inFlow then s.version ≠ .old && !isTabOrSpace next
  else !isGap next && !s.inFlow && (c = '?' || c = ':')

def fetchMore (s : Scanner) : Except Failure Scanner := do
  match s.nextGap with
  | (some gap, s) => return s.push ⟨.comment gap.comment, gap.start, s.cursor.mark, none⟩
  | (none, s) =>
    let s ← s.dropStaleKeys
    let s := s.unwindTo s.cursor.column
    let c := s.cursor.peek
    let spaced := isGap (s.cursor.peekAt 1)
    let atMarker := s.cursor.column = 0 && s.cursor.atMarker
    if s.cursor.atEnd then s.fetchStreamEnd
    else if c = '%' && s.cursor.column = 0 then s.fetchDirective
    else if c = '-' && atMarker then s.fetchMarker .documentStart
    else if c = '.' && atMarker then s.fetchMarker .documentEnd
    else if c = '[' then s.fetchFlowStart .flowSequenceStart .square
    else if c = '\x7b' then s.fetchFlowStart .flowMappingStart .curly
    else if c = ']' then s.fetchFlowEnd .flowSequenceEnd
    else if c = '\x7d' then s.fetchFlowEnd .flowMappingEnd
    else if c = ',' then s.fetchFlowEntry
    else if c = '-' && spaced then s.fetchBlockEntry
    else if c = '?' && (s.inFlow || spaced) then s.fetchKey
    else if c = ':' && s.colonIsValue then s.fetchValue
    else if c = '*' then s.fetchAnchor .alias
    else if c = '&' then s.fetchAnchor .anchor
    else if c = '!' then s.fetchTag
    else if c = '|' && !s.inFlow then s.fetchBlockScalar false
    else if c = '>' && !s.inFlow then s.fetchBlockScalar true
    else if c = '\'' then s.fetchQuoted false
    else if c = '"' then s.fetchQuoted true
    else if s.plainStarts then s.fetchPlain
    else s.fail (.cannotStartToken c)

/-! ### Taking tokens -/

/-- Whether the first token is not known yet: there is none, or it may become a key. -/
def needsMore (s : Scanner) : Except Failure (Bool × Scanner) :=
  if s.done then .ok (false, s)
  else if s.tokens.isEmpty then .ok (true, s)
  else do
    let s ← s.dropStaleKeys
    return (s.simpleKeys.any (fun entry => entry.2.token = s.taken), s)

def takeComment (s : Scanner) : Option Comment × Scanner :=
  match s.tokens with
  | token :: tokens =>
    match token.comment? with
    | some comment => (some comment, { s with tokens := tokens, taken := s.taken + 1 })
    | none => (none, s)
  | [] => (none, s)

def fillFirst : Nat → Scanner → Except Failure Scanner
  | 0, s => .ok s
  | fuel + 1, s => do
    match ← s.needsMore with
    | (true, s) => fillFirst fuel (← s.fetchMore)
    | (false, s) => return s

/-- As `fillFirst`, but comments that come first are taken on the way. -/
def fillPastComments : Nat → Scanner → Except Failure (List Comment × Scanner)
  | 0, s => .ok ([], s)
  | fuel + 1, s => do
    match ← s.needsMore with
    | (true, s) =>
      let (found, s) := (← s.fetchMore).takeComment
      let (more, s) ← fillPastComments fuel s
      return (found.toList ++ more, s)
    | (false, s) => return ([], s)

def commentBefore (s : Scanner) (comments : List Comment) : Except Failure Scanner :=
  match s.tokens with
  | token :: tokens =>
    let present := token.comments.getD {}
    if present.before.isSome || present.colon.isSome then .error (.beyond .repeatedLead)
    else
      let comments := { present with before := some (.comments comments) }
      .ok { s with tokens := { token with comments := some comments } :: tokens }
  | [] => .ok s

def fuel (s : Scanner) : Nat := s.cursor.left + 4

def prepare (s : Scanner) : Except Failure Scanner := do
  let s ← fillFirst s.fuel s
  let (first, s) := s.takeComment
  let (others, s) ← fillPastComments s.fuel s
  let comments := first.toList ++ others
  let s ← if comments.isEmpty then pure s else s.commentBefore comments
  if !s.done && s.tokens.length < 2 then s.fetchMore else return s

/-- Takes the comments that stand second in the queue of tokens, reading on after each. -/
def takeFollowing : Nat → Scanner → Except Failure (List Comment × Scanner)
  | 0, s => .ok ([], s)
  | fuel + 1, s =>
    match s.tokens with
    | first :: second :: tokens =>
      match second.comment? with
      | some comment => do
        let s ← { s with tokens := first :: tokens, taken := s.taken + 1 }.fetchMore
        let (more, s) ← takeFollowing fuel s
        return (comment :: more, s)
      | none => .ok ([], s)
    | _ => .ok ([], s)

/-- The comment that a comment makes after a token: one on a later line starts with the breaks and
the indentation before it. -/
def commentAsAfter (first second : Token) (comment : Comment) : Comment :=
  let lines := second.start.line - first.stop.line
  if lines = 0 then comment
  else
    { comment with
      text := List.replicate lines '\n' ++ List.replicate second.start.column ' ' ++ comment.text }

/-- Gives comments after the first token to it: those on its line, and any after a scalar. -/
def attachComments (s : Scanner) : Except Failure Scanner :=
  match s.tokens with
  | first :: second :: tokens =>
    match second.comment? with
    | some comment =>
      if first.takesComment && (first.isScalar || first.stop.line = second.start.line) then do
        let s ← { s with tokens := first :: tokens, taken := s.taken + 1 }.fetchMore
        let (others, s) ← takeFollowing s.fuel s
        let whole := (commentAsAfter first second comment).followedBy others
        return { s with tokens := first.commentAfter whole :: s.tokens.drop 1 }
      else .ok s
    | none => .ok s
  | _ => .ok s

def editComments (s : Scanner) (change : Comments → Comments) : Scanner :=
  match s.tokens with
  | token :: tokens =>
    { s with tokens := { token with comments := token.comments.map change } :: tokens }
  | [] => s

def receiveComments (s : Scanner) (moved : Comments) (ofColon : Bool) : Except Failure Scanner :=
  match s.tokens with
  | token :: tokens => do
    let comments ←
      match token.comments with
      | none => pure (if ofColon then moved.ofColon else moved)
      | some present =>
        if moved.overlap present then .error (.beyond (.overlappingComments moved present))
        else pure (moved.merge present)
    return { s with tokens := { token with comments := some comments } :: tokens }
  | [] => .ok s

def peekToken (s : Scanner) : Except Failure (Token × Scanner) := do
  let s ← s.prepare
  let here : Token := ⟨.streamEnd, s.cursor.mark, s.cursor.mark, none⟩
  return (s.tokens.headD here, s)

def takeToken (s : Scanner) : Except Failure (Token × Scanner) := do
  let s ← (← s.prepare).attachComments
  match s.tokens with
  | token :: tokens => return (token, { s with tokens := tokens, taken := s.taken + 1 })
  | [] => return (⟨.streamEnd, s.cursor.mark, s.cursor.mark, none⟩, s)

end Flowfile.Yaml.Scanner
