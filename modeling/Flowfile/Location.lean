import Flowfile.Path
import Flowfile.Text.Blank
import Flowfile.Text.Line
import Flowfile.Tree.Basic

/-!
What a cursor is on.

An offset on a token, its end included, belongs to the token, and of two tokens to the earlier one.
On a line that holds nothing but white space or a dash before the cursor, the column decides into
which collection an insertion would go.
-/

namespace Flowfile

inductive Region
  | key | value | empty
  deriving DecidableEq

def Region.name : Region → String
  | .key => "key"
  | .value => "value"
  | .empty => "empty"

/-- A place in a tree. The node is a key, a value, an implicit empty value or the collection around
the place; there is none where a new item would start, or in a document without content. -/
structure Location where
  node : Option Node
  path : Path
  region : Region
  parent : Option Node

namespace Location

structure Cursor where
  text : Text
  offset : Nat

namespace Cursor

def keyStop (c : Cursor) (key : Node) : Nat :=
  if c.text[key.stop]? = some ':' then key.stop + 1 else key.stop

def isBlockCollection : Node → Bool
  | .map _ _ flow _ | .sequence _ _ flow _ => !flow
  | _ => false

/-- Containment; a block collection goes on over the blanks that follow it on its last line. -/
def reaches (c : Cursor) (node : Node) : Bool :=
  node.contains c.offset ||
    (isBlockCollection node && node.stop < c.offset &&
      (c.text.slice node.stop c.offset).all (fun d => d = ' ' || d = '\t'))

/-- Whether the place of an empty value, from `start` on, holds the offset: on the same line, and
not past the next sibling. -/
def inEmpty (c : Cursor) (start : Nat) (beforeNext : Bool) : Bool :=
  Text.sameLine c.text start c.offset && beforeNext

mutual

def bySpan (c : Cursor) (path : Path) (parent : Option Node) : Node → Location
  | .alias info name target => ⟨some (.alias info name target), path, .value, parent⟩
  | .scalar info anchor raw value style =>
    let node : Node := .scalar info anchor raw value style
    ⟨some node, path, if node.isEmpty then .empty else .value, parent⟩
  | .map info anchor flow pairs =>
    let node : Node := .map info anchor flow pairs
    (spanPairs c path node pairs).getD ⟨some node, path, .empty, parent⟩
  | .sequence info anchor flow items =>
    let node : Node := .sequence info anchor flow items
    (spanItems c path node 0 items).getD ⟨some node, path, .empty, parent⟩

def spanPairs (c : Cursor) (path : Path) (self : Node) : List (Node × Node) → Option Location
  | [] => none
  | (key, value) :: rest =>
    let inner := path ++ [.key key.keyText]
    if key.start ≤ c.offset && c.offset ≤ c.keyStop key then
      some ⟨some key, inner, .key, some self⟩
    else if !value.isEmpty then
      if c.reaches value then some (bySpan c inner (some self) value)
      else spanPairs c path self rest
    else
      let beforeNext :=
        match rest with
        | [] => true
        | (next, _) :: _ => c.offset ≤ next.start
      if key.stop < c.offset && c.inEmpty key.stop beforeNext then
        some ⟨some value, inner, .empty, some self⟩
      else spanPairs c path self rest

def spanItems (c : Cursor) (path : Path) (self : Node) (position : Nat) :
    List Node → Option Location
  | [] => none
  | item :: rest =>
    let inner := path ++ [.index position]
    if item.isEmpty then
      let beforeNext :=
        match rest with
        | [] => true
        | next :: _ => c.offset < next.start
      if item.start ≤ c.offset && c.inEmpty item.start beforeNext then
        some ⟨some item, inner, .empty, some self⟩
      else spanItems c path self (position + 1) rest
    else if c.reaches item then some (bySpan c inner (some self) item)
    else spanItems c path self (position + 1) rest

end

structure Indent where
  column : Nat
  dash : Bool

def isBlockSequence : Node → Bool
  | .sequence _ _ flow _ => !flow
  | _ => false

def isCollection : Node → Bool
  | .map .. | .sequence .. => true
  | _ => false

mutual

def byIndent (c : Cursor) (indent : Indent) (path : Path) (parent : Option Node) : Node → Location
  | .alias info name target => ⟨some (.alias info name target), path, .value, parent⟩
  | .scalar info anchor raw value style =>
    ⟨some (.scalar info anchor raw value style), path, .empty, parent⟩
  | .map info anchor flow pairs =>
    let node : Node := .map info anchor flow pairs
    let here : Location := ⟨some node, path, .empty, parent⟩
    match flow, pairs.head? with
    | true, _ | _, none => here
    | false, some (first, _) =>
      let keyColumn := Text.column c.text first.start
      if keyColumn < indent.column then (indentPairs c indent path node pairs).getD here
      else if indent.dash && indent.column = keyColumn then
        (indentlessPairs c indent path node pairs).getD here
      else here
  | .sequence info anchor flow items =>
    let node : Node := .sequence info anchor flow items
    let here : Location := ⟨some node, path, .empty, parent⟩
    let dashColumn := Text.column c.text info.start
    if flow || indent.column < dashColumn then here
    else if indent.column = dashColumn then
      if indent.dash then
        (dashItem c path node 0 items).getD
          ⟨none, path ++ [.index items.length], .empty, some node⟩
      else here
    else (indentItems c indent path node 0 items).getD here

def indentPairs (c : Cursor) (indent : Indent) (path : Path) (self : Node) :
    List (Node × Node) → Option Location
  | [] => none
  | (key, value) :: rest =>
    let inner := path ++ [.key key.keyText]
    if rest.any (fun pair => pair.1.start < c.offset) then indentPairs c indent path self rest
    else if c.offset ≤ key.start then none
    else if value.isEmpty then
      if indent.dash then some ⟨none, inner ++ [.index 0], .empty, some self⟩
      else some ⟨some value, inner, .empty, some self⟩
    else if isCollection value then some (byIndent c indent inner (some self) value)
    else some ⟨some value, inner, .value, some self⟩

/-- Goes into the last pair if its value is a sequence at the column of its key. -/
def indentlessPairs (c : Cursor) (indent : Indent) (path : Path) (self : Node) :
    List (Node × Node) → Option Location
  | [] => none
  | (key, value) :: rest =>
    if rest.any (fun pair => pair.1.start < c.offset) then indentlessPairs c indent path self rest
    else if key.start < c.offset && isBlockSequence value &&
        Text.column c.text value.start = indent.column then
      some (byIndent c indent (path ++ [.key key.keyText]) (some self) value)
    else none

def dashItem (c : Cursor) (path : Path) (self : Node) (position : Nat) :
    List Node → Option Location
  | [] => none
  | item :: rest =>
    if rest.any (fun next => next.start ≤ c.offset) then dashItem c path self (position + 1) rest
    else if item.start ≤ c.offset && item.isEmpty && Text.sameLine c.text item.start c.offset then
      some ⟨some item, path ++ [.index position], .empty, some self⟩
    else none

def indentItems (c : Cursor) (indent : Indent) (path : Path) (self : Node) (position : Nat) :
    List Node → Option Location
  | [] => none
  | item :: rest =>
    let inner := path ++ [.index position]
    if rest.any (fun next => next.start ≤ c.offset) then
      indentItems c indent path self (position + 1) rest
    else if c.offset < item.start then none
    else if item.isEmpty then some ⟨some item, inner, .empty, some self⟩
    else if isCollection item then some (byIndent c indent inner (some self) item)
    else some ⟨some item, inner, .value, some self⟩

end

/-- How the line of the offset starts: white space only, or with one dash in it; none if there is
anything else before the offset. -/
def indent? (c : Cursor) : Option Indent :=
  let line := c.text.slice (Text.lineStart c.text c.offset) c.offset
  let lead := line.takeWhile (fun d => d = ' ' || d = '\t')
  if Text.allBlank line then some ⟨line.length, false⟩
  else
    match line.drop lead.length with
    | '-' :: rest =>
      if rest.all (fun d => d = ' ' || d = '\t') then some ⟨lead.length, true⟩ else none
    | _ => none

end Cursor

def ofCursor (root : Node) (c : Cursor) : Location :=
  let found : Location :=
    if Cursor.isCollection root || root.contains c.offset then c.bySpan [] none root
    else ⟨some root, [], .empty, none⟩
  if found.region = .empty then
    match c.indent? with
    | some indent => c.byIndent indent [] none root
    | none => found
  else found

end Location

/-- The place of an offset; offsets outside the text are moved to its ends. -/
def locate (root : Option Node) (text : Text) (offset : Int) : Location :=
  match root with
  | none => ⟨none, [], .empty, none⟩
  | some root => Location.ofCursor root ⟨text, min offset.toNat text.length⟩

end Flowfile
