import Flowfile.Tree.Basic

/-!
Projection of trees onto values.

Aliases are expanded in place. Nested or excessive expansion is cut off: past the limits an alias
projects to null. The key `<<` merges a mapping: its entries fill in what is not there yet.
-/

namespace Flowfile.Projection

def mergeKey : Text := ['<', '<']

/-- Adds the entries whose keys are not there yet. -/
def merge (entries : List (Text × Value)) (merged : Value) : List (Text × Value) :=
  merged.entries.foldl
    (fun all entry => if (all.lookup entry.1).isSome then all else all ++ [entry]) entries

def addEntry (entries : List (Text × Value)) (key : Text) (value : Value) : List (Text × Value) :=
  if key = mergeKey then merge entries value else Value.assign key value entries

mutual

/-- Projection with `depth` levels of expansion left and `left` expansions in all; gives also how
many are left afterwards. -/
def project : (depth left : Nat) → Node → Value × Nat
  | _, left, .scalar _ _ _ value _ => (value, left)
  | depth, left, .map _ _ _ pairs =>
    let (entries, left) := projectPairs depth left [] pairs
    (.map none entries, left)
  | depth, left, .sequence _ _ _ items =>
    let (values, left) := projectItems depth left items
    (.list none values, left)
  | 0, left, .alias _ _ _ => (.null, left)
  | _ + 1, 0, .alias _ _ _ => (.null, 0)
  | depth + 1, left + 1, .alias _ _ target => project depth left target

def projectPairs (depth left : Nat) (entries : List (Text × Value)) :
    List (Node × Node) → List (Text × Value) × Nat
  | [] => (entries, left)
  | (key, value) :: pairs =>
    let (projected, left) := project depth left value
    projectPairs depth left (addEntry entries key.keyText projected) pairs

def projectItems (depth left : Nat) : List Node → List Value × Nat
  | [] => ([], left)
  | item :: items =>
    let (value, left) := project depth left item
    let (values, left) := projectItems depth left items
    (value :: values, left)

end

def defaultDepth : Nat := 16

def defaultExpansions : Nat := 1000

end Flowfile.Projection

def Flowfile.Node.toValue (node : Flowfile.Node) : Flowfile.Value :=
  (Flowfile.Projection.project Flowfile.Projection.defaultDepth
    Flowfile.Projection.defaultExpansions node).1
