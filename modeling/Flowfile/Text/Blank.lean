import Flowfile.Text.Basic

/-!
White space of the Unicode standard, the separators of the information group included.
-/

namespace Flowfile.Text

def isBlank (c : Char) : Bool :=
  let n := c.toNat
  (0x09 ≤ n && n ≤ 0x0D) || (0x1C ≤ n && n ≤ 0x20) || n = 0x85 || n = 0xA0 || n = 0x1680 ||
    (0x2000 ≤ n && n ≤ 0x200A) || n = 0x2028 || n = 0x2029 || n = 0x202F || n = 0x205F ||
    n = 0x3000

def stripLeft (text : Text) : Text := text.dropWhile isBlank

def stripRight (text : Text) : Text := (text.reverse.dropWhile isBlank).reverse

def strip (text : Text) : Text := stripRight (stripLeft text)

def allBlank (text : Text) : Bool := text.all isBlank

end Flowfile.Text
