import Flowfile.Text.Integer
import Flowfile.Value.Basic

/-! Which integer a value stands for where an integer is asked for.

Besides integers these are truth values, doubles without a fraction and texts. A text may have
blanks around it, a sign, zeros in front, single underscores between its digits and a fraction of
zeros. -/

namespace Flowfile

namespace Text

/-- Drops zeros from the front, with underscores between them. At least one character stays, and a
zero stays before a point. None if the text does not start like a number. -/
def dropZeros? : Text → Option Text
  | '0' :: rest => go '0' rest
  | c :: rest => if isAsciiDigit c || c = '-' then some (c :: rest) else none
  | [] => none
where
  go (last : Char) : Text → Option Text
    | [] => some [last]
    | c :: rest =>
      if c = '0' || c = '_' then go c rest
      else if c = '.' then some (last :: c :: rest)
      else if isAsciiDigit c || c = '-' then some (c :: rest)
      else none

def dropZeroFraction (text : Text) : Text :=
  let whole := text.takeWhile (· ≠ '.')
  if (text.drop whole.length).drop 1 |>.all (· = '0') then whole else text

/-- Drops underscores if each of them stands alone between two other characters. -/
def dropUnderscores (text : Text) : Text :=
  if (splitOn '_' text).all (fun part => !part.isEmpty) then text.filter (· ≠ '_') else text

def bareNumber? (text : Text) : Option Text :=
  let trimmed := text.trim
  let unsigned? : Option Text :=
    match trimmed with
    | '+' :: '-' :: _ => none
    | '+' :: rest => some rest
    | _ => some trimmed
  (unsigned?.bind dropZeros?).map fun number => dropUnderscores (dropZeroFraction number)

/-- The integer that a text is: digits without a zero in front, after a minus sign or none. -/
def plainInteger? (text : Text) : Option Int :=
  let (negative, digits) : Bool × Text :=
    match text with
    | '-' :: rest => (true, rest)
    | _ => (false, text)
  if digits.isDigits && (digits.head? ≠ some '0' || digits.length = 1) then
    some (integerOf negative digits)
  else none

def integerSize (text : Text) : Nat :=
  let sign := if text.head? = some '-' then 1 else 0
  let digits := (text.drop sign).takeWhile isAsciiDigit
  if digits.head? = some '0' then sign + 1 else sign + digits.length

end Text

inductive IntegerFault
  | noInteger
  | fraction
  | notFinite
  | tooLarge
  | noIntegerText
  deriving DecidableEq

def Text.toInteger (text : Text) : Except IntegerFault Int :=
  let number := text.bareNumber?.getD text
  if digitLimit < text.integerSize || digitLimit < number.integerSize then .error .tooLarge
  else
    match number.plainInteger? with
    | some i => .ok i
    | none => .error .noIntegerText

def Double.toInteger (d : Double) : Except IntegerFault Int :=
  if !d.isFinite then .error .notFinite
  else
    match d.toInt? with
    | none => .error .fraction
    | some i => if i.natAbs < 0x8000000000000000 then .ok i else .error .tooLarge

def Value.toInteger : Value → Except IntegerFault Int
  | .bool b => .ok (if b then 1 else 0)
  | .number (.int i) => .ok i
  | .number (.float d) => d.toInteger
  | .str text => text.toInteger
  | _ => .error .noInteger

end Flowfile
