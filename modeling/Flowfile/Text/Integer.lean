import Flowfile.Text.Blank

/-!
Integers as texts: a sign or none, and digits that single underscores may divide.
-/

namespace Flowfile.Text

/-- White space that may surround a number: the separators of the information group do not count. -/
def isSpacing (c : Char) : Bool := isBlank c && !(0x1C ≤ c.toNat && c.toNat ≤ 0x1F)

def trim (text : Text) : Text :=
  ((text.dropWhile isSpacing).reverse.dropWhile isSpacing).reverse

/-- The digits of a text in which single underscores stand between digits. -/
def ungrouped? (text : Text) : Option Text :=
  let groups := splitOn '_' text
  if groups.all isDigits then some groups.flatten else none

def unsigned (text : Text) : Bool × Text :=
  match text with
  | '-' :: rest => (true, rest)
  | '+' :: rest => (false, rest)
  | _ => (false, text)

def integerOf (negative : Bool) (digits : Text) : Int :=
  if negative then -(readDigits 10 digits : Int) else readDigits 10 digits

def grouped (n : Int) : Text :=
  let digits := (ofNat n.natAbs).reverse
  let rec go : Nat → Text → Text
    | _, [] => []
    | 3, c :: rest => ',' :: c :: go 1 rest
    | count, c :: rest => c :: go (count + 1) rest
  (if n < 0 then ['-'] else []) ++ (go 0 digits).reverse

end Flowfile.Text
