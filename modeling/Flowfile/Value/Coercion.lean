import Flowfile.Value.Basic
import Flowfile.Text.Blank

/-!
Coercions of the expression dialect: truth, numbers, loose equality and order.
-/

namespace Flowfile

structure ExprError where
  message : Text
  position : Nat
  deriving DecidableEq

inductive EvalError
  | expression (error : ExprError)
  /-- An integer beyond the range of doubles was tested for truth. -/
  | integerTooLarge
  /-- An integer has more digits than may be written as a key. -/
  | tooManyDigits
  | arity
  /-- A step is counted from the end, and the job has fewer steps. -/
  | noSuchStep
  deriving DecidableEq

def EvalError.failure (message : Text) : EvalError := .expression ⟨message, 0⟩

def integerKey (i : Int) : Except EvalError Text :=
  let digits := Nat.toDigits 10 i.natAbs
  if digitLimit < digits.length then .error .tooManyDigits
  else .ok (if i < 0 then '-' :: digits else digits)

namespace Text

def exponentLength (text : Text) : Nat :=
  match text with
  | c :: rest =>
    if c = 'e' || c = 'E' then
      let (sign, digits) :=
        match rest with
        | s :: more => if s = '-' || s = '+' then (1, more) else (0, rest)
        | [] => (0, rest)
      let count := (digits.takeWhile isAsciiDigit).length
      if count = 0 then 0 else 1 + sign + count
    else 0
  | [] => 0

def decimalLiteralLength (text : Text) : Nat :=
  let whole := (text.takeWhile isAsciiDigit).length
  let fraction :=
    match text.drop whole with
    | '.' :: rest =>
      let count := (rest.takeWhile isAsciiDigit).length
      if whole = 0 && count = 0 then 0 else 1 + count
    | _ => 0
  if whole + fraction = 0 then 0
  else whole + fraction + exponentLength (text.drop (whole + fraction))

/-- The number that a text spells: decimal with an optional sign, or `0x` and hexadecimal digits;
blank text is zero. -/
def toNumber? (text : Text) : Option Double :=
  let trimmed := strip text
  match trimmed with
  | [] => some (.zero false)
  | '0' :: 'x' :: digits =>
    if !digits.isEmpty && digits.all isHexDigit then some (.ofInt (readDigits 16 digits)) else none
  | first :: rest =>
    let body := if first = '-' || first = '+' then rest else trimmed
    if !body.isEmpty && decimalLiteralLength body = body.length then
      some ((Decimal.ofLiteral body).toDouble (first = '-'))
    else none

end Text

namespace Value

/-- Whether a value counts as true. The test is made on doubles, so an integer that has no nearest
double fails it. -/
def truthy : Value → Except EvalError Bool
  | .undefined | .null => .ok false
  | .bool b => .ok b
  | .number (.int i) =>
    if i = 0 then .ok false
    else if (Double.ofInt i).isFinite then .ok true
    else .error .integerTooLarge
  | .number (.float d) => .ok (!d.isNan && !d.eq (.zero false))
  | .str s => .ok (!s.isEmpty)
  | .list _ _ | .map _ _ => .ok true

def toNumber : Value → Double
  | .null => .zero false
  | .bool b => .ofInt (if b then 1 else 0)
  | .number n => n.toDouble
  | .str s => (s.toNumber?).getD .nan
  | .undefined | .list _ _ | .map _ _ => .nan

def isContainer : Value → Bool
  | .list _ _ | .map _ _ => true
  | _ => false

/-- Loose equality: values of one kind directly, texts without regard to case, others as numbers. -/
def looseEq (left right : Value) : Bool :=
  match left, right with
  | .undefined, _ => false
  | _, .undefined => false
  | .str a, .str b => a.casefold = b.casefold
  | .null, .null => true
  | .bool a, .bool b => a = b
  | .number a, .number b => a.eq b
  | .list a _, .list b _ => a.same b
  | .map a _, .map b _ => a.same b
  | a, b => if a.isContainer || b.isContainer then false else a.toNumber.eq b.toNumber

inductive Ordering
  | lt | le | gt | ge
  deriving DecidableEq

def Ordering.ofTexts (rel : Ordering) (a b : Text) : Bool :=
  match rel with
  | .lt => a.before b
  | .le => !b.before a
  | .gt => b.before a
  | .ge => !a.before b

def Ordering.ofDoubles (rel : Ordering) (a b : Double) : Bool :=
  match rel with
  | .lt => a.lt b
  | .le => a.le b
  | .gt => b.lt a
  | .ge => b.le a

/-- Ordering comparison: texts without regard to case, other values as numbers. What is undefined,
not a number, or has parts is in no order. -/
def compare (rel : Ordering) (left right : Value) : Bool :=
  if left.isContainer || right.isContainer || left.isUndefined || right.isUndefined then false
  else
    match left, right with
    | .str a, .str b => rel.ofTexts a.casefold b.casefold
    | a, b => rel.ofDoubles a.toNumber b.toNumber

end Value

end Flowfile
