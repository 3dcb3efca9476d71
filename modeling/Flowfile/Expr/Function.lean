import Flowfile.Expr.Basic
import Flowfile.Json.Reader
import Flowfile.Json.Writer

/-!
What the built-in functions compute. Status functions have no meaning before a run and report the
favourable outcome; hashes of files are unknown.
-/

namespace Flowfile

/-- Number of a placeholder `n}` after an opening brace, of one to nine digits, with its length. -/
def placeholder? (text : Text) : Option (Nat × Nat) :=
  let digits := text.takeWhile Text.isAsciiDigit
  if 1 ≤ digits.length && digits.length ≤ 9 && (text.drop digits.length).head? = some '\x7d' then
    some (Text.readDigits 10 digits, digits.length + 1)
  else none

def invalidFormat (template : Text) : EvalError :=
  .failure (Text.of "Invalid format string '" ++ template ++ ['\''])

def formatOutOfRange (index : Nat) : EvalError :=
  .failure (Text.of "Format argument \x7b" ++ Text.ofNat index ++ Text.of "\x7d is out of range")

/-- Fills what is left of a template: doubled braces stand for one, a number in braces for the text
of that argument. The first `skip` characters have been used up. -/
def formatFrom (template : Text) (args : List Text) : Nat → Text → Except EvalError Text
  | _, [] => .ok []
  | skip + 1, _ :: rest => formatFrom template args skip rest
  | 0, c :: rest =>
    if c = '\x7b' then
      if rest.head? = some '\x7b' then do return c :: (← formatFrom template args 1 rest)
      else
        match placeholder? rest with
        | none => .error (invalidFormat template)
        | some (index, size) =>
          match args[index]? with
          | none => .error (formatOutOfRange index)
          | some text => do return text ++ (← formatFrom template args size rest)
    else if c = '\x7d' then
      if rest.head? = some '\x7d' then do return c :: (← formatFrom template args 1 rest)
      else .error (invalidFormat template)
    else do return c :: (← formatFrom template args 0 rest)

def format (template : Text) (args : List Text) : Except EvalError Text :=
  formatFrom template args 0 template

/-- Membership in a list by loose equality; otherwise occurrence in the text, without regard to
case. -/
def containsValue (search item : Value) : Bool :=
  match search with
  | .list _ items => items.any (fun element => element.looseEq item)
  | _ => Text.hasInfix item.toText.casefold search.toText.casefold

def joinValues (value : Value) (separator : Text) : Text :=
  match value with
  | .list _ items => Text.joinWith separator (items.map Value.toText)
  | _ => value.toText

def fromJson (value : Value) : Except EvalError Value :=
  match value.toText with
  | [] => .ok .undefined
  | text =>
    match Json.read text with
    | .ok result => .ok result
    | .error (problem, _) =>
      .error (.failure (Text.of "Invalid JSON passed to fromJSON: " ++ problem.message))

def Function.apply : Function → List Value → Except EvalError Value
  | .contains, [search, item] => .ok (.bool (containsValue search item))
  | .startsWith, [search, start] =>
    .ok (.bool (start.toText.casefold.isPrefixOf search.toText.casefold))
  | .endsWith, [search, ending] =>
    .ok (.bool (ending.toText.casefold.isSuffixOf search.toText.casefold))
  | .format, template :: args => do
    return .str (← Flowfile.format template.toText (args.map Value.toText))
  | .join, [value] => .ok (.str (joinValues value [',']))
  | .join, [value, separator] => .ok (.str (joinValues value separator.toText))
  | .toJson, [value] => .ok (.str (Json.write value))
  | .fromJson, [value] => Flowfile.fromJson value
  | .success, [] | .always, [] => .ok (.bool true)
  | .failure, [] | .cancelled, [] => .ok (.bool false)
  | .hashFiles, _ => .ok .undefined
  | _, _ => .error .arity

end Flowfile
