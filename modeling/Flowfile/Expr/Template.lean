import Flowfile.Expr.Eval

/-!
Expressions embedded in text between `${{` and `}}`.
-/

namespace Flowfile

/-- One embedded expression; `start` and `stop` enclose the delimiters too. -/
structure Span where
  start : Nat
  stop : Nat
  source : Text
  closed : Bool
  deriving DecidableEq

def Span.contains (span : Span) (offset : Int) : Bool := span.start ≤ offset && offset ≤ span.stop

namespace Template

def opener : Text := ['$', '\x7b', '\x7b']

/-- Position of the first closing delimiter outside string literals. -/
def closing? : (inString : Bool) → Text → Option Nat
  | _, [] => none
  | true, '\'' :: '\'' :: rest => (closing? true rest).map (· + 2)
  | true, c :: rest => (closing? (c ≠ '\'') rest).map (· + 1)
  | false, '\x7d' :: '\x7d' :: _ => some 0
  | false, c :: rest => (closing? (c = '\'') rest).map (· + 1)

/-- Embedded expressions of what is left of a text. The first `skip` characters belong to an
expression that has been found. -/
def spansFrom (position : Nat) : Nat → Text → List Span
  | _, [] => []
  | skip + 1, _ :: rest => spansFrom (position + 1) skip rest
  | 0, c :: rest =>
    if opener.isPrefixOf (c :: rest) then
      let body := rest.drop 2
      match closing? false body with
      | none => [⟨position, position + 3 + body.length, body, false⟩]
      | some size =>
        ⟨position, position + size + 5, body.take size, true⟩ ::
          spansFrom (position + 1) (size + 4) rest
    else spansFrom (position + 1) 0 rest

/-- All embedded expressions, in order. One that is not closed runs to the end of the text. -/
def spans (text : Text) : List Span := spansFrom 0 0 text

def hasExpression (text : Text) : Bool := Text.hasInfix opener text

def closedSpans (text : Text) : List Span := (spans text).filter Span.closed

def splice (resolve : Resolver) (text : Text) (cursor : Nat) : List Span → Traced Text
  | [] => .pure (text.drop cursor)
  | span :: rest => do
    let value ← Expr.evaluateSource resolve span.source
    let after ← splice resolve text span.stop rest
    return text.slice cursor span.start ++ value.toText ++ after

/-- Evaluates a text with embedded expressions. A text that is one expression between white space
gives its value as it is; otherwise the texts of the values are put in place. -/
def evaluate (resolve : Resolver) (text : Text) : Traced Value :=
  let splicing : Traced Value := do return .str (← splice resolve text 0 (closedSpans text))
  match closedSpans text with
  | [span] =>
    if Text.allBlank (text.take span.start) && Text.allBlank (text.drop span.stop) then
      Expr.evaluateSource resolve span.source
    else splicing
  | _ => splicing

end Template

end Flowfile
