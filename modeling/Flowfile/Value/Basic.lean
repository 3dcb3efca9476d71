import Flowfile.Number.Basic
import Flowfile.Text.Casefold

/-!
Values of the expression dialect and of projected documents.

Lists and mappings remember where they were read from: in the dialect two of them are equal only if
they are one and the same part of the workflow, or of the fixed values of a context. A computed list
or mapping has no such place and equals nothing, not even itself.
-/

namespace Flowfile

/-- Where a list or mapping stands: the positions that lead to it from the value it is part of. -/
abbrev Origin := Option (List Nat)

/-- Two origins are one place only if there is a place. -/
def Origin.same : Origin → Origin → Bool
  | some left, some right => left = right
  | _, _ => false

inductive Value
  | undefined
  | null
  | bool (value : Bool)
  | number (value : Number)
  | str (value : Text)
  | list (origin : Origin) (items : List Value)
  | map (origin : Origin) (entries : List (Text × Value))

namespace Value

abbrev int (i : Int) : Value := .number (.int i)

abbrev float (d : Double) : Value := .number (.float d)

abbrev text (s : String) : Value := .str (Text.of s)

abbrev record (entries : List (Text × Value)) : Value := .map none entries

instance : Inhabited Value := ⟨.undefined⟩

inductive Kind
  | undefined | null | boolean | number | string | array | object
  deriving DecidableEq

def Kind.name : Kind → String
  | .undefined => "undefined"
  | .null => "null"
  | .boolean => "boolean"
  | .number => "number"
  | .string => "string"
  | .array => "array"
  | .object => "object"

def kind : Value → Kind
  | .undefined => .undefined
  | .null => .null
  | .bool _ => .boolean
  | .number _ => .number
  | .str _ => .string
  | .list _ _ => .array
  | .map _ _ => .object

def isUndefined : Value → Bool
  | .undefined => true
  | _ => false

def get? (v : Value) (key : Text) : Option Value :=
  match v with
  | .map _ entries => entries.lookup key
  | _ => none

def entries : Value → List (Text × Value)
  | .map _ entries => entries
  | _ => []

/-- Assigns a key: a present key keeps its place and takes the new value. -/
def assign (key : Text) (item : Value) : List (Text × Value) → List (Text × Value)
  | [] => [(key, item)]
  | (k, v) :: rest => if k = key then (k, item) :: rest else (k, v) :: assign key item rest

mutual

def locateAt (place : List Nat) : Value → Value
  | .list _ items => .list (some place) (locateItems place 0 items)
  | .map _ entries => .map (some place) (locateEntries place 0 entries)
  | .undefined => .undefined
  | .null => .null
  | .bool b => .bool b
  | .number n => .number n
  | .str s => .str s

def locateItems (place : List Nat) (position : Nat) : List Value → List Value
  | [] => []
  | item :: items => locateAt (place ++ [position]) item :: locateItems place (position + 1) items

def locateEntries (place : List Nat) (position : Nat) : List (Text × Value) → List (Text × Value)
  | [] => []
  | (key, item) :: entries =>
    (key, locateAt (place ++ [position]) item) :: locateEntries place (position + 1) entries

end

def located (v : Value) : Value := v.locateAt []

mutual

def structureOf : Value → Value
  | .list _ items => .list none (structureOfItems items)
  | .map _ entries => .map none (structureOfEntries entries)
  | .undefined => .undefined
  | .null => .null
  | .bool b => .bool b
  | .number n => .number n
  | .str s => .str s

def structureOfItems : List Value → List Value
  | [] => []
  | item :: items => structureOf item :: structureOfItems items

def structureOfEntries : List (Text × Value) → List (Text × Value)
  | [] => []
  | (key, item) :: entries => (key, structureOf item) :: structureOfEntries entries

end

/-- Position that a segment names in a list of `size` items: ASCII digits, at most eighteen. -/
def listIndex? (segment : Text) (size : Nat) : Option Nat :=
  if segment.isDigits && segment.length ≤ 18 then
    let index := Text.readDigits 10 segment
    if index < size then some index else none
  else none

/-- One step into a value: a key matches exactly first and then without regard to case. -/
def step (v : Value) (segment : Text) : Value :=
  match v with
  | .map _ entries =>
    match entries.lookup segment with
    | some item => item
    | none =>
      let folded := segment.casefold
      match entries.find? (fun entry => entry.1.casefold = folded) with
      | some entry => entry.2
      | none => .undefined
  | .list _ items =>
    match listIndex? segment items.length with
    | some index => items.getD index .undefined
    | none => .undefined
  | _ => .undefined

def lookup (v : Value) (segments : List Text) : Value := segments.foldl step v

end Value

end Flowfile
