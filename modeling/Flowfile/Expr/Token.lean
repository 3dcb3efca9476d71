import Flowfile.Value.Coercion

/-!
Tokens of the expression language.

Every token records its text and where it starts, and the last token marks the end of the source.
A sign or a leading point starts a number only where an operand may stand.
-/

namespace Flowfile

inductive Symbol
  | eq | ne | le | ge | and | or | lt | gt | not | dot
  | openBracket | closeBracket | openParen | closeParen | comma
  deriving DecidableEq

def Symbol.all : List Symbol :=
  [.eq, .ne, .le, .ge, .and, .or, .lt, .gt, .not, .dot, .openBracket, .closeBracket, .openParen,
    .closeParen, .comma]

def Symbol.text : Symbol → Text
  | .eq => ['=', '=']
  | .ne => ['!', '=']
  | .le => ['<', '=']
  | .ge => ['>', '=']
  | .and => ['&', '&']
  | .or => ['|', '|']
  | .lt => ['<']
  | .gt => ['>']
  | .not => ['!']
  | .dot => ['.']
  | .openBracket => ['[']
  | .closeBracket => [']']
  | .openParen => ['(']
  | .closeParen => [')']
  | .comma => [',']

inductive Lexeme
  | number (value : Number)
  | string (value : Text)
  | identifier
  | operator (symbol : Symbol)
  | finish
  deriving DecidableEq

structure Token where
  lexeme : Lexeme
  text : Text
  start : Nat
  deriving DecidableEq

namespace Lexeme

def kindName : Lexeme → String
  | .number _ => "number"
  | .string _ => "string"
  | .identifier => "identifier"
  | .operator _ => "operator"
  | .finish => "end of expression"

def opensOperand : Lexeme → Bool
  | .operator .closeParen | .operator .closeBracket => false
  | .operator _ => true
  | _ => false

end Lexeme

namespace Token

/-- The rest of a string literal after its opening quote: the text it stands for, in which a quote
was written twice, and how many characters it takes up with the closing quote. -/
def readQuoted? : Text → Option (Text × Nat)
  | [] => none
  | '\'' :: '\'' :: rest => (readQuoted? rest).map fun (value, size) => ('\'' :: value, size + 2)
  | '\'' :: _ => some ([], 1)
  | c :: rest => (readQuoted? rest).map fun (value, size) => (c :: value, size + 1)

def hexLiteralLength : Text → Nat
  | '0' :: 'x' :: rest =>
    let count := (rest.takeWhile Text.isHexDigit).length
    if count = 0 then 0 else count + 2
  | _ => 0

def unsignedLength (text : Text) : Nat :=
  if hexLiteralLength text = 0 then text.decimalLiteralLength else hexLiteralLength text

/-- Length of the number at the start of the text; zero if there is none. -/
def numberLength : Text → Nat
  | '-' :: rest => if unsignedLength rest = 0 then 0 else unsignedLength rest + 1
  | text => unsignedLength text

/-- Value of an unsigned number. Digits past the limit on integers make a double. -/
def unsignedValue (negative : Bool) (text : Text) : Number :=
  if hexLiteralLength text ≠ 0 then
    let magnitude : Int := Text.readDigits 16 (text.drop 2)
    .int (if negative then -magnitude else magnitude)
  else if text.isDigits && text.length ≤ digitLimit then
    let magnitude : Int := Text.readDigits 10 text
    .int (if negative then -magnitude else magnitude)
  else .float ((Decimal.ofLiteral text).toDouble negative)

def numberValue : Text → Number
  | '-' :: rest => unsignedValue true rest
  | text => unsignedValue false text

def isIdentifierStart (c : Char) : Bool := Text.isAsciiLetter c || c = '_'

def isIdentifierPart (c : Char) : Bool := isIdentifierStart c || Text.isAsciiDigit c || c = '-'

def readLexeme (operandExpected : Bool) (c : Char) (rest : Text) : Except Text (Lexeme × Nat) :=
  let text := c :: rest
  if c = '\'' then
    match readQuoted? rest with
    | some (value, size) => .ok (.string value, size + 1)
    | none => .error (Text.of "Unterminated string literal")
  else
    let size :=
      if Text.isAsciiDigit c || ((c = '-' || c = '.') && operandExpected) then numberLength text
      else 0
    if size ≠ 0 then .ok (.number (numberValue (text.take size)), size)
    else if isIdentifierStart c then .ok (.identifier, (text.takeWhile isIdentifierPart).length)
    else
      match Symbol.all.find? (fun symbol => symbol.text.isPrefixOf text) with
      | some symbol => .ok (.operator symbol, symbol.text.length)
      | none => .error (Text.of "Unexpected character '" ++ [c, '\''])

/-- The tokens of what is left of a source. The first `skip` characters belong to a token that has
been read; `previous` is the last token before them. -/
def readFrom (position : Nat) (previous : Option Lexeme) : Nat → Text → Except ExprError (List Token)
  | _, [] => .ok [⟨.finish, [], position⟩]
  | skip + 1, _ :: rest => readFrom (position + 1) previous skip rest
  | 0, c :: rest =>
    if Text.isBlank c then readFrom (position + 1) previous 0 rest
    else
      let operandExpected :=
        match previous with
        | none => true
        | some lexeme => lexeme.opensOperand
      match readLexeme operandExpected c rest with
      | .error message => .error ⟨message, position⟩
      | .ok (lexeme, size) =>
        match readFrom (position + 1) (some lexeme) (size - 1) rest with
        | .error error => .error error
        | .ok tokens => .ok (⟨lexeme, (c :: rest).take size, position⟩ :: tokens)

def readAll (source : Text) : Except ExprError (List Token) := readFrom 0 none 0 source

end Token

end Flowfile
