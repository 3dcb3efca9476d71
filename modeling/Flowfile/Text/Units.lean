import Flowfile.Text.Basic

/-!
Offsets in UTF-16 code units, as editors count them, and in characters.
-/

namespace Flowfile.Text

def units (c : Char) : Nat := if 0xFFFF < c.toNat then 2 else 1

/-- The character offset of an offset in code units. Past the end both count alike, and an offset
between the two units of a character is that of the character. -/
def indexOfUnits : Text → Int → Int
  | [], offset => offset
  | c :: rest, offset =>
    if offset < units c then min offset 0 else indexOfUnits rest (offset - units c) + 1

def unitsOfIndex : Text → Int → Int
  | [], index => index
  | c :: rest, index => if index ≤ 0 then index else unitsOfIndex rest (index - 1) + units c

end Flowfile.Text
