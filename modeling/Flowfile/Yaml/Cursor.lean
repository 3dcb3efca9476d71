import Flowfile.Text.Basic

/-!
Reading positions in a YAML text.

Lines end at a line feed or at a carriage return that no line feed follows. Further characters break
lines for the purposes of scanning only, and a byte order mark has no width.
-/

namespace Flowfile.Yaml

structure Mark where
  index : Nat
  line : Nat
  column : Nat
  deriving DecidableEq

structure Cursor where
  rest : Text
  left : Nat
  mark : Mark

/-- The character that stands for the end of the text. -/
def endChar : Char := '\x00'

def isBreak (c : Char) : Bool :=
  c = '\n' || c = '\r' || c = '\u0085' || c = '\u2028' || c = '\u2029'

def isEnd (c : Char) : Bool := isBreak c || c = endChar

def isGap (c : Char) : Bool := c = ' ' || c = '\t' || isEnd c

/-- As `isGap`, but a tab does not separate. -/
def isSpaceOrEnd (c : Char) : Bool := c = ' ' || isEnd c

namespace Cursor

def ofText (text : Text) : Cursor := ⟨text, text.length, ⟨0, 0, 0⟩⟩

def peekAt (cursor : Cursor) (ahead : Nat) : Char := (cursor.rest[ahead]?).getD endChar

def peek (cursor : Cursor) : Char := cursor.rest.headD endChar

def atEnd (cursor : Cursor) : Bool := cursor.rest.isEmpty

def index (cursor : Cursor) : Nat := cursor.mark.index

def column (cursor : Cursor) : Nat := cursor.mark.column

def next (cursor : Cursor) : Cursor :=
  match cursor.rest with
  | [] => cursor
  | c :: rest =>
    let ⟨index, line, column⟩ := cursor.mark
    let mark : Mark :=
      if c = '\n' || (c = '\r' && rest.head? ≠ some '\n') then ⟨index + 1, line + 1, 0⟩
      else if c = '\uFEFF' then ⟨index + 1, line, column⟩
      else ⟨index + 1, line, column + 1⟩
    ⟨rest, cursor.left - 1, mark⟩

def forward : Nat → Cursor → Cursor
  | 0, cursor => cursor
  | count + 1, cursor => forward count cursor.next

def skipWhile (cursor : Cursor) (p : Char → Bool) : Cursor :=
  forward (cursor.rest.takeWhile p).length cursor

def atMarker (cursor : Cursor) : Bool :=
  match cursor.rest with
  | '-' :: '-' :: '-' :: rest | '.' :: '.' :: '.' :: rest => isGap (rest.headD endChar)
  | _ => false

/-- Passes a line break. What it stands for in a scalar: most breaks count as a line feed, the line
and paragraph separators as themselves; nothing if there is no break here. -/
def lineBreak (cursor : Cursor) : Text × Cursor :=
  match cursor.rest with
  | '\r' :: '\n' :: _ => (['\n'], forward 2 cursor)
  | c :: _ =>
    if c = '\n' || c = '\r' || c = '\u0085' then (['\n'], cursor.next)
    else if c = '\u2028' || c = '\u2029' then ([c], cursor.next)
    else ([], cursor)
  | [] => ([], cursor)

def fuel (cursor : Cursor) : Nat := cursor.left + 1

end Cursor

end Flowfile.Yaml
