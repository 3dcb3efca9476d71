import Flowfile.Number.Decimal

/-!
Numbers of the expression dialect: integers of any size beside doubles.
-/

namespace Flowfile

inductive Number
  | int (value : Int)
  | float (value : Double)
  deriving DecidableEq

def digitLimit : Nat := 4300

def tooManyDigitsMessage (count : Nat) : Text :=
  Text.of "Exceeds the limit (4300 digits) for integer string conversion: value has " ++
    Text.ofNat count ++
    Text.of " digits; use sys.set_int_max_str_digits() to increase the limit"

namespace Number

def bitLength (i : Int) : Nat := if i = 0 then 0 else Nat.log2 i.natAbs + 1

/-- The nearest double; integers beyond the range become infinite. -/
def toDouble : Number → Double
  | .int i => .ofInt i
  | .float d => d

/-- Integers of more than 1024 bits behave as infinities. -/
def clamp : Number → Number
  | .int i => if 1024 < bitLength i then .float (.infinite (i < 0)) else .int i
  | .float d => .float d

def eq : Number → Number → Bool
  | .int a, .int b => a = b
  | .int a, .float b => b.toInt? = some a
  | .float a, .int b => a.toInt? = some b
  | .float a, .float b => a.eq b

def toText (n : Number) : Text :=
  match n.clamp with
  | .int i => Text.ofInt i
  | .float d => d.toText

def toJson (n : Number) : Text :=
  match n.clamp with
  | .int i => Text.ofInt i
  | .float d => d.toJson

end Number

end Flowfile
