import Flowfile.Value.Basic

/-!
Reading JSON text.

The reader takes the usual liberties: `NaN` and the infinities are numbers, and of two equal keys
the later one wins in the place of the first. Inside the reader a problem is placed by how many
characters are left from it on; the outer function turns that into a position.
-/

namespace Flowfile.Json

inductive Problem
  | expectingValue
  | extraData
  | expectingName
  | expectingColon
  | expectingComma
  | unterminatedString
  | controlCharacter
  | badEscape
  | badUnicodeEscape
  | byteOrderMark
  | tooManyDigits (count : Nat)
  deriving DecidableEq

def Problem.message : Problem → Text
  | .expectingValue => Text.of "Expecting value"
  | .extraData => Text.of "Extra data"
  | .expectingName => Text.of "Expecting property name enclosed in double quotes"
  | .expectingColon => Text.of "Expecting ':' delimiter"
  | .expectingComma => Text.of "Expecting ',' delimiter"
  | .unterminatedString => Text.of "Unterminated string starting at"
  | .controlCharacter => Text.of "Invalid control character at"
  | .badEscape => Text.of "Invalid \\escape"
  | .badUnicodeEscape => Text.of "Invalid \\uXXXX escape"
  | .byteOrderMark => Text.of "Unexpected UTF-8 BOM (decode using utf-8-sig)"
  | .tooManyDigits count => tooManyDigitsMessage count

/-- A problem and the number of characters left where it is seen. -/
structure Fault where
  problem : Problem
  left : Nat
  deriving DecidableEq

abbrev Step (α : Type) := Except Fault (α × Text)

def fail {α : Type} (problem : Problem) (rest : Text) : Except Fault α :=
  .error ⟨problem, rest.length⟩

def isSpace (c : Char) : Bool := c = ' ' || c = '\t' || c = '\n' || c = '\r'

def skipSpace (text : Text) : Text := text.dropWhile isSpace

def readUnit? (a b c d : Char) : Option Nat :=
  if [a, b, c, d].all Text.isHexDigit then some (Text.readDigits 16 [a, b, c, d]) else none

def isHighSurrogate (unit : Nat) : Bool := 0xD800 ≤ unit && unit ≤ 0xDBFF

def isLowSurrogate (unit : Nat) : Bool := 0xDC00 ≤ unit && unit ≤ 0xDFFF

/-- The character of one unit; half of a pair on its own is the replacement character. -/
def unitChar (unit : Nat) : Char :=
  if 0xD800 ≤ unit && unit ≤ 0xDFFF then Char.ofNat 0xFFFD else Char.ofNat unit

def pairChar (high low : Nat) : Char :=
  Char.ofNat (0x10000 + (high - 0xD800) * 0x400 + (low - 0xDC00))

def simpleEscape? (c : Char) : Option Char :=
  if c = '"' || c = '\\' || c = '/' then some c
  else if c = 'b' then some (Char.ofNat 0x08)
  else if c = 'f' then some (Char.ofNat 0x0C)
  else if c = 'n' then some '\n'
  else if c = 'r' then some '\r'
  else if c = 't' then some '\t'
  else none

def consTo (c : Char) : Step Text → Step Text
  | .ok (text, rest) => .ok (c :: text, rest)
  | .error fault => .error fault

/-- The escape after a backslash: its character and how many characters it takes up. Four digits
at the very end of the text are not read as an escape. -/
def readEscape (opened text : Text) : Except Fault (Char × Nat) :=
  match text with
  | [] => fail .unterminatedString opened
  | 'u' :: a :: b :: c :: d :: tail =>
    match readUnit? a b c d, tail.isEmpty with
    | some unit, false =>
      if isHighSurrogate unit then
        match tail with
        | '\\' :: 'u' :: e :: f :: g :: h :: _ :: _ =>
          match readUnit? e f g h with
          | none => fail .badUnicodeEscape (tail.drop 1)
          | some low =>
            if isLowSurrogate low then .ok (pairChar unit low, 11) else .ok (unitChar unit, 5)
        | _ => .ok (unitChar unit, 5)
      else .ok (unitChar unit, 5)
    | _, _ => fail .badUnicodeEscape text
  | 'u' :: _ => fail .badUnicodeEscape text
  | c :: _ =>
    match simpleEscape? c with
    | some escaped => .ok (escaped, 1)
    | none => fail .badEscape ('\\' :: text)

/-- The rest of a string after its opening quote; `opened` starts with that quote. The first `skip`
characters belong to an escape that has been read. -/
def readString (opened : Text) : Nat → Text → Step Text
  | _, [] => fail .unterminatedString opened
  | skip + 1, _ :: rest => readString opened skip rest
  | 0, c :: rest =>
    if c = '"' then .ok ([], rest)
    else if c = '\\' then
      match readEscape opened rest with
      | .error fault => .error fault
      | .ok (escaped, size) => consTo escaped (readString opened size rest)
    else if c.toNat ≤ 0x1F then fail .controlCharacter (c :: rest)
    else consTo c (readString opened 0 rest)

def exponentLength (text : Text) : Nat :=
  match text with
  | c :: rest =>
    if c = 'e' || c = 'E' then
      let signed :=
        match rest with
        | s :: _ => if s = '-' || s = '+' then 1 else 0
        | [] => 0
      let count := ((rest.drop signed).takeWhile Text.isAsciiDigit).length
      if count = 0 then 0 else 1 + signed + count
    else 0
  | [] => 0

def readUnsigned (negative : Bool) (start body : Text) : Step Value :=
  let whole :=
    match body with
    | '0' :: _ => 1
    | _ => (body.takeWhile Text.isAsciiDigit).length
  if whole = 0 then fail .expectingValue start
  else
    let fraction :=
      match body.drop whole with
      | '.' :: rest =>
        let count := (rest.takeWhile Text.isAsciiDigit).length
        if count = 0 then 0 else 1 + count
      | _ => 0
    let exponent := exponentLength (body.drop (whole + fraction))
    let size := whole + fraction + exponent
    let rest := body.drop size
    if fraction + exponent = 0 then
      if digitLimit < whole then .error ⟨.tooManyDigits whole, start.length⟩
      else
        let magnitude : Int := Text.readDigits 10 (body.take whole)
        .ok (.int (if negative then -magnitude else magnitude), rest)
    else .ok (.float ((Decimal.ofLiteral (body.take size)).toDouble negative), rest)

def readNumber (text : Text) : Step Value :=
  match text with
  | '-' :: rest => readUnsigned true text rest
  | _ => readUnsigned false text text

def constants : List (Text × Value) := [
  (Text.of "null", .null), (Text.of "true", .bool true), (Text.of "false", .bool false),
  (Text.of "NaN", .float .nan), (Text.of "Infinity", .float (.infinite false)),
  (Text.of "-Infinity", .float (.infinite true))]

mutual

def readValue : Nat → Text → Step Value
  | 0, text => fail .expectingValue text
  | _ + 1, [] => fail .expectingValue []
  | fuel + 1, c :: rest =>
    if c = '"' then
      match readString (c :: rest) 0 rest with
      | .ok (s, after) => .ok (.str s, after)
      | .error fault => .error fault
    else if c = '\x7b' then
      match skipSpace rest with
      | '\x7d' :: after => .ok (.record [], after)
      | inner => readMembers fuel [] inner
    else if c = '[' then
      match skipSpace rest with
      | ']' :: after => .ok (.list none [], after)
      | inner => readItems fuel [] inner
    else
      match constants.find? (fun constant => constant.1.isPrefixOf (c :: rest)) with
      | some (spelling, value) => .ok (value, (c :: rest).drop spelling.length)
      | none => readNumber (c :: rest)

/-- Items up to the closing bracket; `done` holds the earlier ones, last first. -/
def readItems : Nat → List Value → Text → Step Value
  | 0, _, text => fail .expectingValue text
  | fuel + 1, done, text =>
    match readValue fuel text with
    | .error fault => .error fault
    | .ok (item, after) =>
      match skipSpace after with
      | ']' :: rest => .ok (.list none (item :: done).reverse, rest)
      | ',' :: rest => readItems fuel (item :: done) (skipSpace rest)
      | rest => fail .expectingComma rest

def readMembers : Nat → List (Text × Value) → Text → Step Value
  | 0, _, text => fail .expectingName text
  | fuel + 1, done, text =>
    match text with
    | '"' :: inner =>
      match readString text 0 inner with
      | .error fault => .error fault
      | .ok (key, afterKey) =>
        match skipSpace afterKey with
        | ':' :: afterColon =>
          match readValue fuel (skipSpace afterColon) with
          | .error fault => .error fault
          | .ok (item, after) =>
            match skipSpace after with
            | '\x7d' :: rest => .ok (.record (Value.assign key item done), rest)
            | ',' :: rest => readMembers fuel (Value.assign key item done) (skipSpace rest)
            | rest => fail .expectingComma rest
        | rest => fail .expectingColon rest
    | _ => fail .expectingName text

end

def readWhole (text : Text) : Except (Problem × Nat) Value :=
  let place (fault : Fault) : Problem × Nat := (fault.problem, text.length - fault.left)
  match readValue (2 * text.length + 2) (skipSpace text) with
  | .error fault => .error (place fault)
  | .ok (value, after) =>
    match skipSpace after with
    | [] => .ok value
    | rest => .error (place ⟨.extraData, rest.length⟩)

def read (text : Text) : Except (Problem × Nat) Value :=
  match text with
  | '\uFEFF' :: _ => .error (.byteOrderMark, 0)
  | _ => readWhole text

end Flowfile.Json
