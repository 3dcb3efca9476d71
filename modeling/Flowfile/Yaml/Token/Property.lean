import Flowfile.Yaml.Token.Scalar

/-!
Reading anchors, aliases, tags and directives.
-/

namespace Flowfile.Yaml

def isAnchorChar (c : Char) : Bool :=
  let n := c.toNat
  !(Text.of ",[]\x7b\x7d").contains c &&
    ((0x21 ≤ n && n ≤ 0x7E) || (0xA0 ≤ n && n ≤ 0xD7FF) ||
      (0xE000 ≤ n && n ≤ 0xFFFD && n ≠ 0xFEFF) || 0x10000 ≤ n)

def anchorName (cursor : Cursor) : Except Failure (Text × Cursor) :=
  let start := cursor.mark
  let here := cursor.next
  let name := here.rest.takeWhile isAnchorChar
  let after := here.forward name.length
  let c := after.peek
  if name.isEmpty || !(isGap c || (Text.of "?:,[]\x7b\x7d%@\x60").contains c) then
    .error (.scanning (.expectedName c) (some start) after)
  else .ok (name, after)

def isUriChar (version : Version) (c : Char) : Bool :=
  Text.isAsciiDigit c || Text.isAsciiLetter c ||
    (Text.of "-;/?:@&=+$,_.!~*'()[]").contains c || (version.isModern && c = '#')

def uriEscapes (start : Mark) : Nat → Cursor → Except Failure (List Nat × Cursor)
  | 0, cursor => .ok ([], cursor)
  | fuel + 1, cursor =>
    if cursor.peek ≠ '%' then .ok ([], cursor)
    else
      let digits := cursor.next
      let bad := [0, 1].find? (fun k => !Text.isHexDigit (digits.peekAt k))
      match bad with
      | some k => .error (.scanning (.expectedUriEscape (digits.peekAt k)) (some start) digits)
      | none => do
        let (bytes, after) ← uriEscapes start fuel (digits.forward 2)
        return (Text.readDigits 16 (digits.rest.take 2) :: bytes, after)

/-- Passes the characters of a URI; `any` tells whether some were passed before. -/
def uriRest (version : Version) (start : Mark) : Nat → (any : Bool) → Cursor → Except Failure Cursor
  | 0, _, cursor => .ok cursor
  | fuel + 1, any, cursor =>
    if cursor.peek = '%' then do
      let (bytes, after) ← uriEscapes start cursor.fuel cursor
      match Text.Utf8.fault? bytes with
      | none => uriRest version start fuel true after
      | some fault => .error (.scanning (.invalidUriEscape fault) (some start) cursor)
    else if isUriChar version cursor.peek then
      uriRest version start fuel true (cursor.skipWhile (isUriChar version))
    else if any then .ok cursor
    else .error (.scanning (.expectedUri cursor.peek) (some start) cursor)

def uri (version : Version) (start : Mark) (cursor : Cursor) : Except Failure (Text × Cursor) := do
  let after ← uriRest version start cursor.fuel false cursor
  return (cursor.rest.take (cursor.left - after.left), after)

def isHandleChar (c : Char) : Bool :=
  Text.isAsciiDigit c || Text.isAsciiLetter c || c = '-' || c = '_'

def tagHandle (start : Mark) (cursor : Cursor) : Except Failure (Text × Cursor) :=
  if cursor.peek ≠ '!' then .error (.scanning (.expectedBang cursor.peek) (some start) cursor)
  else
    let here := cursor.next
    if here.peek = ' ' then .ok (['!'], here)
    else
      let name := here.rest.takeWhile isHandleChar
      let after := here.forward name.length
      if after.peek = '!' then .ok ('!' :: name ++ ['!'], after.next)
      else .error (.scanning (.expectedClosingBang after.peek) (some start) after)

/-- A tag: its handle, or none if it is given in full, and whether it is the bare tag `!`. -/
structure Tag where
  handle : Option Text
  bare : Bool

/-- What follows the first exclamation mark of a tag, or the second one of two; `short` is the
handle that these are. -/
def tagAfter (version : Version) (start : Mark) (short : Text) (bang : Cursor) :
    Except Failure (Tag × Cursor) := do
  let here := bang.next
  if here.peek = '<' then
    let (name, after) ← uri version start here.next
    if after.peek = '>' then
      return (⟨none, name = ['!'] || name = Text.of "%21"⟩, after.next)
    else .error (.scanning (.expectedAngle after.peek) (some start) after)
  else if isGap here.peek then return (⟨none, short = ['!']⟩, here)
  else if (here.rest.takeWhile (fun c => !isSpaceOrEnd c)).contains '!' then
    let (handle, after) ← tagHandle start bang
    let (_, last) ← uri version start after
    return (⟨some handle, false⟩, last)
  else
    let (_, last) ← uri version start here
    return (⟨some short, false⟩, last)

def tag (version : Version) (cursor : Cursor) : Except Failure (Tag × Cursor) := do
  let start := cursor.mark
  let (tag, after) ←
    if cursor.peekAt 1 = '!' then tagAfter version start ['!', '!'] cursor.next
    else tagAfter version start ['!'] cursor
  if isSpaceOrEnd after.peek then return (tag, after)
  else .error (.scanning (.expectedSpace after.peek) (some start) after)

def directiveNumber (start : Mark) (cursor : Cursor) : Except Failure (Nat × Cursor) :=
  let digits := cursor.rest.takeWhile Text.isAsciiDigit
  if digits.isEmpty then .error (.scanning (.expectedDigit cursor.peek) (some start) cursor)
  else if digitLimit < digits.length then .error (.beyond (.tooManyDigits digits.length))
  else .ok (Text.readDigits 10 digits, cursor.forward digits.length)

def directiveVersion (start : Mark) (cursor : Cursor) : Except Failure (Directive × Cursor) := do
  let (major, point) ← directiveNumber start (cursor.skipWhile (· = ' '))
  if point.peek ≠ '.' then
    .error (.scanning (.expectedDigitOrPoint point.peek) (some start) point)
  else
    let (minor, after) ← directiveNumber start point.next
    if isSpaceOrEnd after.peek then return (.version ⟨major, minor⟩, after)
    else .error (.scanning (.expectedDigitOrPoint after.peek) (some start) after)

def directiveTag (version : Version) (start : Mark) (cursor : Cursor) :
    Except Failure (Directive × Cursor) := do
  let (handle, after) ← tagHandle start (cursor.skipWhile (· = ' '))
  if after.peek ≠ ' ' then .error (.scanning (.expectedSpace after.peek) (some start) after)
  else
    let (_, last) ← uri version start (after.skipWhile (· = ' '))
    if isSpaceOrEnd last.peek then return (.tagHandle handle, last)
    else .error (.scanning (.expectedSpace last.peek) (some start) last)

def isDirectiveChar (c : Char) : Bool := isHandleChar c || c = ':' || c = '.'

def directive (version : Version) (cursor : Cursor) :
    Except Failure (Directive × Mark × Cursor) := do
  let start := cursor.mark
  let here := cursor.next
  let name := here.rest.takeWhile isDirectiveChar
  let after := here.forward name.length
  if name.isEmpty || !isSpaceOrEnd after.peek then
    .error (.scanning (.expectedName after.peek) (some start) after)
  else
    let (result, stop, last) ←
      if name = Text.of "YAML" then do
        let (result, last) ← directiveVersion start after
        pure (result, last.mark, last)
      else if name = Text.of "TAG" then do
        let (result, last) ← directiveTag version start after
        pure (result, last.mark, last)
      else pure (Directive.other, after.mark, after.skipWhile (fun c => !isEnd c))
    let (_, line) ← commentLine start last
    return (result, stop, line)

end Flowfile.Yaml
