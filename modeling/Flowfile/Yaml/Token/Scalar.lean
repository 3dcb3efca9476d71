import Flowfile.Yaml.Token.Basic

/-!
Reading scalars: plain, quoted and block ones. Every function starts at a cursor and gives the text
that the scalar stands for together with the cursor after it.
-/

namespace Flowfile.Yaml

/-! ### Plain scalars -/

/-- Length of the piece of a plain scalar at the start of the text, up to a blank. A colon ends it
only before a blank; inside brackets the marks of flow collections end it too. -/
def plainLength (inFlow : Bool) (version : Version) : Text → Nat
  | [] => 0
  | c :: rest =>
    let goesOn :=
      if c = ':' && !isGap (rest.headD endChar) then true
      else if c = '?' && version ≠ .old then true
      else !(isGap c || (!inFlow && c = ':') || (inFlow && (Text.of ",:?[]\x7b\x7d").contains c))
    if goesOn then plainLength inFlow version rest + 1 else 0

def plainBreaks : Nat → Cursor → Option Text × Cursor
  | 0, cursor => (some [], cursor)
  | fuel + 1, cursor =>
    if cursor.peek = ' ' then plainBreaks fuel cursor.next
    else if isBreak cursor.peek then
      let (broken, after) := cursor.lineBreak
      if after.atMarker then (none, after)
      else
        match plainBreaks fuel after with
        | (some more, last) => (some (broken ++ more), last)
        | (none, last) => (none, last)
    else (some [], cursor)

structure PlainGap where
  /-- The text the gap stands for; none if the scalar ends. -/
  text : Option Text
  cursor : Cursor
  broke : Bool

def plainGap (cursor : Cursor) : PlainGap :=
  let spaces := cursor.rest.takeWhile (· = ' ')
  let here := cursor.forward spaces.length
  if isEnd here.peek then
    let (broken, after) := here.lineBreak
    if after.atMarker then ⟨none, after, true⟩
    else
      match plainBreaks after.fuel after with
      | (none, last) => ⟨none, last, true⟩
      | (some breaks, last) =>
        let first := if broken ≠ ['\n'] then broken else if breaks.isEmpty then [' '] else []
        ⟨some (first ++ breaks), last, true⟩
  else ⟨if spaces.isEmpty then none else some spaces, here, false⟩

structure PlainScalar where
  /-- The pieces and the gaps between them, the last one first. -/
  pieces : List Text
  stop : Mark
  cursor : Cursor
  broke : Bool
  /-- What the gap after the last piece stands for; it belongs to the scalar only if it goes on. -/
  gap : Text

namespace PlainScalar

def value (scalar : PlainScalar) : Text := scalar.pieces.reverse.flatten

def emptyLines? (scalar : PlainScalar) : Option Text :=
  if scalar.gap.head? = some '\n' then some (scalar.gap ++ ['\n']) else none

end PlainScalar

def plainPieces (inFlow : Bool) (version : Version) (indent : Int) :
    Nat → PlainScalar → PlainScalar
  | 0, done => done
  | fuel + 1, done =>
    let cursor := done.cursor
    let size := if cursor.peek = '#' then 0 else plainLength inFlow version cursor.rest
    if size = 0 then done
    else
      let after := cursor.forward size
      let next := plainGap after
      let piece : PlainScalar :=
        ⟨cursor.rest.take size :: done.gap :: done.pieces, after.mark, next.cursor, next.broke,
          next.text.getD []⟩
      if next.text.isNone || next.cursor.peek = '#' ||
          (!inFlow && (next.cursor.column : Int) < indent) then piece
      else plainPieces inFlow version indent fuel piece

def plainScalar (inFlow : Bool) (version : Version) (indent : Int) (cursor : Cursor) :
    PlainScalar :=
  plainPieces inFlow version indent cursor.fuel ⟨[], cursor.mark, cursor, false, []⟩

/-! ### Quoted scalars -/

def isTabOrSpace (c : Char) : Bool := c = ' ' || c = '\t'

def quotedBreaks (start : Mark) : Nat → Cursor → Except Failure (Text × Cursor)
  | 0, cursor => .ok ([], cursor)
  | fuel + 1, cursor =>
    if cursor.atMarker then .error (.scanning .unexpectedSeparator (some start) cursor)
    else
      let here := cursor.skipWhile isTabOrSpace
      if isBreak here.peek then do
        let (broken, after) := here.lineBreak
        let (more, last) ← quotedBreaks start fuel after
        return (broken ++ more, last)
      else .ok ([], here)

def quotedGap (start : Mark) (cursor : Cursor) : Except Failure (Text × Cursor) :=
  let spaces := cursor.rest.takeWhile isTabOrSpace
  let here := cursor.forward spaces.length
  if here.atEnd then .error (.scanning .unexpectedEnd (some start) here)
  else if isBreak here.peek then do
    let (broken, after) := here.lineBreak
    let (breaks, last) ← quotedBreaks start after.fuel after
    let first := if broken ≠ ['\n'] then broken else if breaks.isEmpty then [' '] else []
    return (first ++ breaks, last)
  else .ok (spaces, here)

def escapeChar? (c : Char) : Option Char :=
  let table : List (Char × Nat) := [
    ('0', 0x00), ('a', 0x07), ('b', 0x08), ('t', 0x09), ('\t', 0x09), ('n', 0x0A), ('v', 0x0B),
    ('f', 0x0C), ('r', 0x0D), ('e', 0x1B), (' ', 0x20), ('"', 0x22), ('/', 0x2F), ('\\', 0x5C),
    ('N', 0x85), ('_', 0xA0), ('L', 0x2028), ('P', 0x2029)]
  (table.lookup c).map Char.ofNat

def escapeDigits? (c : Char) : Option Nat :=
  if c = 'x' then some 2 else if c = 'u' then some 4 else if c = 'U' then some 8 else none

def escape (start : Mark) (cursor : Cursor) : Except Failure (Text × Cursor) :=
  let here := cursor.next
  let c := here.peek
  match escapeChar? c, escapeDigits? c with
  | some escaped, _ => .ok ([escaped], here.next)
  | none, some count =>
    let digits := here.next
    match (List.range count).find? (fun k => !Text.isHexDigit (digits.peekAt k)) with
    | some k =>
      .error (.scanning (.expectedEscape count (digits.peekAt k)) (some start) digits)
    | none =>
      let code := Text.readDigits 16 (digits.rest.take count)
      if 0x80000000 ≤ code then .error (.beyond .characterOverflow)
      else if 0x110000 ≤ code then .error (.beyond .noSuchCharacter)
      else .ok ([Char.ofNat code], digits.forward count)
  | none, none =>
    if isBreak c then
      let (_, after) := here.lineBreak
      quotedBreaks start after.fuel after
    else .error (.scanning (.unknownEscape c) (some start) here)

def quotedRest (double : Bool) (start : Mark) : Nat → Cursor → Except Failure (Text × Cursor)
  | 0, cursor => .error (.scanning .unexpectedEnd (some start) cursor)
  | fuel + 1, cursor =>
    let c := cursor.peek
    let next (result : Except Failure (Text × Cursor)) : Except Failure (Text × Cursor) := do
      let (text, after) ← result
      let (more, last) ← quotedRest double start fuel after
      return (text ++ more, last)
    if c = (if double then '"' else '\'') then
      if !double && cursor.peekAt 1 = '\'' then next (.ok (['\''], cursor.forward 2))
      else .ok ([], cursor.next)
    else if double && c = '\\' then next (escape start cursor)
    else if isGap c then next (quotedGap start cursor)
    else next (.ok ([c], cursor.next))

def quotedScalar (double : Bool) (cursor : Cursor) : Except Failure (Text × Cursor) :=
  quotedRest double cursor.mark cursor.fuel cursor.next

/-! ### Block scalars -/

inductive Chomping
  | clip | keep | strip
  deriving DecidableEq

structure BlockHeader where
  chomping : Chomping
  increment : Option Nat
  cursor : Cursor

def chomping? (c : Char) : Option Chomping :=
  if c = '+' then some .keep else if c = '-' then some .strip else none

def blockIncrement? (start : Mark) (cursor : Cursor) : Except Failure (Option Nat) :=
  let c := cursor.peek
  if c = '0' then .error (.scanning .zeroIndentation (some start) cursor)
  else .ok (if Text.isAsciiDigit c then some (Text.digitValue c) else none)

def blockIndicators (start : Mark) (cursor : Cursor) : Except Failure BlockHeader := do
  let header ←
    match chomping? cursor.peek with
    | some chomping =>
      let after := cursor.next
      match ← blockIncrement? start after with
      | some increment => pure ⟨chomping, some increment, after.next⟩
      | none => pure ⟨chomping, none, after⟩
    | none =>
      match ← blockIncrement? start cursor with
      | some increment =>
        let after := cursor.next
        match chomping? after.peek with
        | some chomping => pure ⟨chomping, some increment, after.next⟩
        | none => pure ⟨.clip, some increment, after⟩
      | none => pure ⟨.clip, none, cursor⟩
  let c := header.cursor.peek
  if isSpaceOrEnd c then return header
  else .error (.scanning (.expectedBlockIndicator c) (some start) header.cursor)

/-- The rest of a line that may hold a comment only, up to its break. The comment is given with the
spaces before it. -/
def commentLine (start : Mark) (cursor : Cursor) : Except Failure (Option Text × Cursor) :=
  let here := cursor.skipWhile (· = ' ')
  let comment? : Option Text :=
    if here.peek = '#' then some (cursor.rest.takeWhile (fun c => !isEnd c)) else none
  let after := if comment?.isSome then here.skipWhile (fun c => !isEnd c) else here
  if isEnd after.peek then .ok (comment?, after.lineBreak.2)
  else .error (.scanning (.expectedCommentOrBreak after.peek) (some start) after)

structure BlankLines where
  breaks : Text
  stop : Mark
  cursor : Cursor

def BlankLines.before (broken : Text) (lines : BlankLines) : BlankLines :=
  { lines with breaks := broken ++ lines.breaks }

/-- Blank lines before the first line of a block scalar whose indentation is to be found: their
greatest column, and the column of the first. `stop` is the mark after the last break so far. -/
def leadingLines : Nat → (stop : Mark) → Cursor → (first : Option Nat) → (greatest : Nat) →
    BlankLines × Option Nat × Nat
  | 0, stop, cursor, first, greatest => (⟨[], stop, cursor⟩, first, greatest)
  | fuel + 1, stop, cursor, first, greatest =>
    if cursor.peek = ' ' then
      let after := cursor.next
      leadingLines fuel stop after first (max greatest after.column)
    else if isBreak cursor.peek then
      let (broken, after) := cursor.lineBreak
      let (lines, columns) :=
        leadingLines fuel after.mark after (first.or (some cursor.column)) greatest
      (lines.before broken, columns)
    else (⟨[], stop, cursor⟩, first, greatest)

def skipToColumn (indent : Nat) (cursor : Cursor) : Cursor :=
  let spaces := (cursor.rest.takeWhile (· = ' ')).length
  cursor.forward (min spaces (indent - cursor.column))

def blankLines (indent : Nat) : Nat → (stop : Mark) → Cursor → BlankLines
  | 0, stop, cursor => ⟨[], stop, cursor⟩
  | fuel + 1, stop, cursor =>
    if isBreak cursor.peek then
      let (broken, after) := cursor.lineBreak
      (blankLines indent fuel after.mark (skipToColumn indent after)).before broken
    else ⟨[], stop, cursor⟩

def blankLinesAt (indent : Nat) (cursor : Cursor) : BlankLines :=
  blankLines indent cursor.fuel cursor.mark (skipToColumn indent cursor)

/-- The character that is put before a folded line break. -/
def foldMark : Char := '\x07'

structure BlockLines where
  pieces : List Text
  lastBreak : Text
  blank : BlankLines

def BlockLines.text (lines : BlockLines) : Text := lines.pieces.reverse.flatten

/-- The lines of a block scalar. `blank` holds the blank lines before the next line; at the top
level of a document a marker ends the scalar. -/
def blockLines (folded : Bool) (indent : Nat) (topLevel : Bool) :
    Nat → (pieces : List Text) → (lastBreak : Text) → BlankLines → BlockLines
  | 0, pieces, lastBreak, blank => ⟨pieces, lastBreak, blank⟩
  | fuel + 1, pieces, lastBreak, blank =>
    let cursor := blank.cursor
    if cursor.column = indent && !cursor.atEnd then
      let startsBare := !isTabOrSpace cursor.peek
      let line := cursor.rest.takeWhile (fun c => !isEnd c)
      let (broken, after) := (cursor.forward line.length).lineBreak
      let next := blankLinesAt indent after
      let pieces := line :: blank.breaks :: pieces
      if topLevel && next.cursor.column = 0 && next.cursor.atMarker then ⟨pieces, broken, next⟩
      else if next.cursor.column = indent && !next.cursor.atEnd then
        let mark := if folded && broken = ['\n'] then [foldMark] else []
        let joint :=
          if folded && broken = ['\n'] && startsBare && !isTabOrSpace next.cursor.peek then
            (if next.breaks.isEmpty then [' '] else [])
          else broken
        blockLines folded indent topLevel fuel (joint :: mark :: pieces) broken next
      else ⟨pieces, broken, next⟩
    else ⟨pieces, lastBreak, blank⟩

structure BlockScalar where
  value : Text
  stop : Mark
  cursor : Cursor
  comment : Option Text
  /-- The breaks of the blank lines that were left out of the value. -/
  trailing : Text

def blockScalar (folded : Bool) (outer : Int) (cursor : Cursor) : Except Failure BlockScalar := do
  let start := cursor.mark
  let header ← blockIndicators start cursor.next
  let (comment, body) ← commentLine start header.cursor
  let least := (outer + 1).toNat
  let (indent, blank) ←
    match header.increment with
    | some increment =>
      let indent := max least 1 + increment - 1
      pure (indent, blankLinesAt indent body)
    | none =>
      let (lines, first, greatest) := leadingLines body.fuel body.mark body none 0
      if 0 < first.getD 0 && first.getD 0 < greatest then
        .error (.malformed ⟨.deeperBlankLine, none, some lines.cursor.index, true⟩)
      else pure (max least greatest, lines)
  let topLevel : Bool := least = 0 && header.increment.isNone
  let lines := blockLines folded indent topLevel body.fuel [] [] blank
  let value :=
    match header.chomping with
    | .clip => lines.text ++ lines.lastBreak
    | .keep => lines.text ++ lines.lastBreak ++ lines.blank.breaks
    | .strip => lines.text
  let trailing := if header.chomping = .keep then [] else lines.blank.breaks
  return ⟨value, lines.blank.stop, lines.blank.cursor, comment, trailing⟩

end Flowfile.Yaml
