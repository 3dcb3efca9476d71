import Flowfile.Value.Basic
import Flowfile.Text.Printable

/-!
Writing values as JSON: two columns of indentation a level, ASCII only, empty lists and mappings
closed at once. What is undefined is written as null.
-/

namespace Flowfile.Json

def unicodeEscape (unit : Nat) : Text := '\\' :: 'u' :: Text.hexPadded 4 unit

/-- A character inside a JSON string. Characters beyond the basic plane are written as two units. -/
def writeChar (c : Char) : Text :=
  let n := c.toNat
  if c = '"' then ['\\', '"']
  else if c = '\\' then ['\\', '\\']
  else if c = '\n' then ['\\', 'n']
  else if c = '\r' then ['\\', 'r']
  else if c = '\t' then ['\\', 't']
  else if n = 0x08 then ['\\', 'b']
  else if n = 0x0C then ['\\', 'f']
  else if 0x20 ≤ n && n ≤ 0x7E then [c]
  else if n < 0x10000 then unicodeEscape n
  else unicodeEscape (0xD800 + (n - 0x10000) / 0x400) ++
    unicodeEscape (0xDC00 + (n - 0x10000) % 0x400)

def writeString (s : Text) : Text := '"' :: s.flatMap writeChar ++ ['"']

def newline (depth : Nat) : Text := '\n' :: List.replicate (2 * depth) ' '

mutual

def writeAt (depth : Nat) : Value → Text
  | .undefined | .null => Text.of "null"
  | .bool b => Text.of (if b then "true" else "false")
  | .number n => n.toJson
  | .str s => writeString s
  | .list _ [] => ['[', ']']
  | .list _ (item :: items) =>
    '[' :: newline (depth + 1) ++ writeAt (depth + 1) item ++ writeItems (depth + 1) items ++
      newline depth ++ [']']
  | .map _ [] => ['\x7b', '\x7d']
  | .map _ ((key, item) :: entries) =>
    '\x7b' :: newline (depth + 1) ++ writeString key ++ [':', ' '] ++ writeAt (depth + 1) item ++
      writeEntries (depth + 1) entries ++ newline depth ++ ['\x7d']

def writeItems (depth : Nat) : List Value → Text
  | [] => []
  | item :: items => ',' :: newline depth ++ writeAt depth item ++ writeItems depth items

def writeEntries (depth : Nat) : List (Text × Value) → Text
  | [] => []
  | (key, item) :: entries =>
    ',' :: newline depth ++ writeString key ++ [':', ' '] ++ writeAt depth item ++
      writeEntries depth entries

end

def write (v : Value) : Text := writeAt 0 v

end Flowfile.Json

def Flowfile.Value.toText : Flowfile.Value → Flowfile.Text
  | .undefined | .null => []
  | .bool b => Flowfile.Text.of (if b then "true" else "false")
  | .number n => n.toText
  | .str s => s
  | .list origin items => Flowfile.Json.write (.list origin items)
  | .map origin entries => Flowfile.Json.write (.map origin entries)
