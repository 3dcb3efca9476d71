import Flowfile.Value.Coercion
import Flowfile.Yaml.Token.Basic

/-!
What the text of a scalar stands for, by the core schema of YAML 1.2. Only plain scalars are more
than text.
-/

namespace Flowfile.Scalar

def isOneOf (text : Text) (spellings : List String) : Bool :=
  spellings.any (fun spelling => Text.of spelling = text)

def signed (text : Text) : Bool × Text :=
  match text with
  | '-' :: rest => (true, rest)
  | '+' :: rest => (false, rest)
  | _ => (false, text)

def prefixed? (marker : Text) (isDigit : Char → Bool) (text : Text) : Option Text :=
  let digits := text.drop marker.length
  if marker.isPrefixOf text && !digits.isEmpty && digits.all isDigit then some digits else none

def isOctalDigit (c : Char) : Bool := '0' ≤ c && c ≤ '7'

def number? (text : Text) : Option Number :=
  let (negative, body) := signed text
  if body.isDigits then
    if body.length ≤ digitLimit then
      let magnitude : Int := Text.readDigits 10 body
      some (.int (if negative then -magnitude else magnitude))
    else some (.float ((Decimal.ofLiteral body).toDouble negative))
  else
    match prefixed? ['0', 'o'] isOctalDigit text, prefixed? ['0', 'x'] Text.isHexDigit text with
    | some digits, _ => some (.int (Text.readDigits 8 digits))
    | _, some digits => some (.int (Text.readDigits 16 digits))
    | none, none =>
      if !body.isEmpty && body.decimalLiteralLength = body.length then
        some (.float ((Decimal.ofLiteral body).toDouble negative))
      else if isOneOf body [".inf", ".Inf", ".INF"] then some (.float (.infinite negative))
      else if isOneOf text [".nan", ".NaN", ".NAN"] then some (.float .nan)
      else none

/-- One line feed at the end of a number does not count. -/
def withoutFinalBreak (text : Text) : Text :=
  if text.getLast? = some '\n' then text.dropLast else text

def resolve (raw : Text) (style : Option Yaml.Style) : Value :=
  if style.isSome then .str raw
  else if isOneOf raw ["", "~", "null", "Null", "NULL"] then .null
  else if isOneOf raw ["true", "True", "TRUE"] then .bool true
  else if isOneOf raw ["false", "False", "FALSE"] then .bool false
  else
    match number? (withoutFinalBreak raw) with
    | some n => .number n
    | none => .str raw

end Flowfile.Scalar
