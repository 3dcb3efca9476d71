import Flowfile.Text.Basic

/-!
Wildcard patterns: `*` stands for any text, `?` for one character, and brackets for one character
of a set, or outside of it after `!`. A bracket that is never closed stands for itself.
-/

namespace Flowfile.Glob

inductive Piece
  | star
  | any
  | char (c : Char)
  | set (negated : Bool) (ranges : List (Char × Char))

/-- An item inside brackets: a character, or the hyphen between the two ends of a range. -/
abbrev Item := Option Char

/-- Splits the inside of brackets at the hyphens that join two ends of a range: such a hyphen
has a character before it that does not end another range. `size` counts the characters since the
last split and `least` how many are needed before the next. -/
def splitRanges (least size : Nat) : Text → List Text
  | [] => [[]]
  | c :: rest =>
    if c = '-' && least ≤ size then [] :: splitRanges 2 0 rest
    else
      match splitRanges least (size + 1) rest with
      | [] => [[c]]
      | chunk :: chunks => (c :: chunk) :: chunks

/-- A hyphen at the very end joins nothing and belongs to the last chunk. -/
def keepFinalHyphen : List Text → List Text
  | [] => []
  | [chunk, []] => [chunk ++ ['-']]
  | chunk :: chunks => chunk :: keepFinalHyphen chunks

def dropEmptyRanges : List Text → List Text
  | [] => []
  | chunk :: chunks =>
    match dropEmptyRanges chunks with
    | [] => [chunk]
    | next :: others =>
      match chunk.getLast?, next.head? with
      | some low, some high =>
        if high < low then (chunk.dropLast ++ next.drop 1) :: others else chunk :: next :: others
      | _, _ => chunk :: next :: others

def items : List Text → List Item
  | [] => []
  | [chunk] => chunk.map some
  | chunk :: chunks => chunk.map some ++ none :: items chunks

/-- Single characters and ranges; a joint with nothing before it is a hyphen. -/
def ranges : List Item → List (Char × Char)
  | [] => []
  | some low :: none :: some high :: rest => (low, high) :: ranges rest
  | some c :: rest => (c, c) :: ranges rest
  | none :: rest => ('-', '-') :: ranges rest

def readSet (inside : Text) : Piece :=
  let first := if inside.head? = some '!' then 2 else 1
  match items (dropEmptyRanges (keepFinalHyphen (splitRanges first 0 inside))) with
  | [some '!'] => .any
  | some '!' :: rest => .set true (ranges rest)
  | rest => .set false (ranges rest)

/-- Position of the bracket that closes a set; one that comes first in the set does not. -/
def closing? (text : Text) : Option Nat :=
  let lead := if text.head? = some '!' then 1 else 0
  let lead := if (text.drop lead).head? = some ']' then lead + 1 else lead
  (Text.search? [']'] (text.drop lead)).map (· + lead)

def piecesFrom : Nat → Text → List Piece
  | _, [] => []
  | skip + 1, _ :: rest => piecesFrom skip rest
  | 0, c :: rest =>
    if c = '*' then .star :: piecesFrom 0 rest
    else if c = '?' then .any :: piecesFrom 0 rest
    else if c = '[' then
      match closing? rest with
      | none => .char c :: piecesFrom 0 rest
      | some size => readSet (rest.take size) :: piecesFrom (size + 1) rest
    else .char c :: piecesFrom 0 rest

def Piece.accepts : Piece → Char → Bool
  | .star, _ => false
  | .any, _ => true
  | .char c, d => c = d
  | .set negated ranges, d => negated != ranges.any (fun range => range.1 ≤ d && d ≤ range.2)

/-- For a text and everything that is left of it after dropping from the front: whether it matches
a piece followed by others, given the same for the others. -/
def extend (piece : Piece) : Text → List Bool → List Bool
  | c :: rest, here :: later =>
    let next := extend piece rest later
    match piece with
    | .star => (here || next.headD false) :: next
    | _ => (piece.accepts c && later.headD false) :: next
  | _, others =>
    match piece with
    | .star => others
    | _ => [false]

def ends : Text → List Bool
  | [] => [true]
  | _ :: rest => false :: ends rest

def suffixMatches (pieces : List Piece) (text : Text) : List Bool :=
  pieces.foldr (fun piece => extend piece text) (ends text)

def accepts (pattern text : Text) : Bool := (suffixMatches (piecesFrom 0 pattern) text).headD false

end Flowfile.Glob
