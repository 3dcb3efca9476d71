import Flowfile.Text.Basic

/-!
Lines of a text. Only a line feed ends a line.
-/

namespace Flowfile.Text

def lineStart (text : Text) (offset : Nat) : Nat :=
  let before := text.take offset
  before.length - (before.reverse.takeWhile (· ≠ '\n')).length

def lineStop (text : Text) (offset : Nat) : Nat :=
  min offset text.length + ((text.drop offset).takeWhile (· ≠ '\n')).length

def column (text : Text) (offset : Nat) : Nat := offset - lineStart text offset

def sameLine (text : Text) (a b : Nat) : Bool := !(text.slice (min a b) (max a b)).contains '\n'

end Flowfile.Text
