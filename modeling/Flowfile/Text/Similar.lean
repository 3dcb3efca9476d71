import Flowfile.Text.Basic

/-!
Texts that resemble a word, for suggestions.

Two texts are compared by their matching blocks: the longest common block, and so on to its left and
to its right. The similarity is the share of characters in matching blocks. In a word of 200 or more
characters, those that make up more than a hundredth of it do not start a block.
-/

namespace Flowfile.Text

structure Block where
  left : Nat
  right : Nat
  size : Nat

/-- Characters of a long word that are too frequent to start a block. -/
def isPopular (word : Text) (c : Char) : Bool :=
  200 ≤ word.length && word.length / 100 + 1 < word.count c

/-- For each position of the second text, the length of the common block that ends there and at the
present character of the first; `diagonal` is the length for the positions before. -/
def blockLengths (skip : Char → Bool) (c : Char) (diagonal : Nat) : Text → List Nat → List Nat
  | [], _ => []
  | d :: rest, previous =>
    (if d = c && !skip d then diagonal + 1 else 0) ::
      blockLengths skip c (previous.headD 0) rest (previous.drop 1)

def improve (row : Nat) (best : Block) : (column : Nat) → List Nat → Block
  | _, [] => best
  | column, size :: rest =>
    let better : Block :=
      if best.size < size then ⟨row + 1 - size, column + 1 - size, size⟩ else best
    improve row better (column + 1) rest

def longestFrom (skip : Char → Bool) (right : Text) : (row : Nat) → Block → List Nat → Text → Block
  | _, best, _, [] => best
  | row, best, previous, c :: rest =>
    let lengths := blockLengths skip c 0 right previous
    longestFrom skip right (row + 1) (improve row best 0 lengths) lengths rest

def commonStart : Text → Text → Nat
  | a :: left, b :: right => if a = b then commonStart left right + 1 else 0
  | _, _ => 0

def widen (left right : Text) (block : Block) : Block :=
  let ahead := commonStart (left.drop (block.left + block.size)) (right.drop (block.right + block.size))
  let back := commonStart (left.take block.left).reverse (right.take block.right).reverse
  ⟨block.left - back, block.right - back, block.size + back + ahead⟩

def matching (skip : Char → Bool) : Nat → Text → Text → Nat
  | 0, _, _ => 0
  | fuel + 1, left, right =>
    let block := widen left right (longestFrom skip right 0 ⟨0, 0, 0⟩ [] left)
    if block.size = 0 then 0
    else
      block.size +
        matching skip fuel (left.take block.left) (right.take block.right) +
        matching skip fuel (left.drop (block.left + block.size))
          (right.drop (block.right + block.size))

def similarity (word candidate : Text) : Nat × Nat :=
  let total := word.length + candidate.length
  if total = 0 then (1, 1)
  else (2 * matching (isPopular word) (candidate.length + 1) candidate word, total)

structure Scored where
  text : Text
  score : Nat × Nat

/-- Whether one candidate goes before another: the more similar one, then the later text. -/
def Scored.ahead (a b : Scored) : Bool :=
  let left := a.score.1 * b.score.2
  let right := b.score.1 * a.score.2
  right < left || (left = right && b.text.before a.text)

def Scored.insert (a : Scored) : List Scored → List Scored
  | [] => [a]
  | b :: rest => if b.ahead a then b :: insert a rest else a :: b :: rest

/-- The candidates that are similar to a word by three fifths or more, at most three of them, the
best first. -/
def closeMatches (word : Text) (candidates : List Text) : List Text :=
  let scored := candidates.map fun candidate => (⟨candidate, similarity word candidate⟩ : Scored)
  let close := scored.filter fun a => 3 * a.score.2 ≤ 5 * a.score.1
  ((close.foldr Scored.insert []).take 3).map Scored.text

end Flowfile.Text
