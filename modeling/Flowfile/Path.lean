import Flowfile.Value.Coercion

/-!
Property paths: the keys and indices that lead from the root of a document to a node.
-/

namespace Flowfile

inductive Segment
  | key (name : Text)
  | index (position : Int)
  deriving DecidableEq

abbrev Path := List Segment

namespace Segment

def text : Segment → Text
  | .key name => name
  | .index position => Text.ofInt position

/-- A part of a dotted path: digits alone are an index. -/
def ofText (part : Text) : Segment :=
  if part.isDigits then .index (Text.readDigits 10 part) else .key part

end Segment

namespace Path

def dotted (path : Path) : Text := Text.dotted (path.map Segment.text)

def ofDotted (text : Text) : Path :=
  if text.isEmpty then [] else (Text.splitOn '.' text).map Segment.ofText

/-- Number of digits of the first index that has more of them than can be converted. -/
def oversized? (path : Path) : Option Nat :=
  path.findSome? fun
    | .index position =>
      let count := (Nat.toDigits 10 position.natAbs).length
      if digitLimit < count then some count else none
    | .key _ => none

end Path

def oversizedPart? (text : Text) : Option Nat :=
  (Text.splitOn '.' text).findSome? fun part =>
    if part.isDigits && digitLimit < part.length then some part.length else none

end Flowfile
