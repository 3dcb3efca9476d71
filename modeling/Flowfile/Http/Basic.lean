import Flowfile.Path
import Flowfile.Value.Integer

/-!
Requests to the service and its replies.
-/

namespace Flowfile.Http

abbrev Bytes := List UInt8

structure Request where
  method : Text
  path : Text
  headers : List (Text × Bytes) := []
  chunks : List Bytes := []

/-- The text of a header: each byte stands for the character of its number. -/
def Request.header? (request : Request) (name : String) : Option Text :=
  (request.headers.lookup (Text.of name)).map fun bytes => bytes.map fun b => Char.ofNat b.toNat

inductive Fault
  | missing
  | wrongType
  | notText
  | integer (fault : IntegerFault)
  | unknownChoice
  | badJson
  deriving DecidableEq

def Fault.name : Fault → String
  | .missing => "missing"
  | .wrongType => "model_attributes_type"
  | .notText => "string_type"
  | .integer .noInteger => "int_type"
  | .integer .fraction => "int_from_float"
  | .integer .notFinite => "finite_number"
  | .integer .tooLarge => "int_parsing_size"
  | .integer .noIntegerText => "int_parsing"
  | .unknownChoice => "enum"
  | .badJson => "json_invalid"

structure Complaint where
  place : Path
  fault : Fault
  /-- The part as it was received; for a missing field the mapping that lacks it. -/
  received : Value

inductive Content
  | value (value : Value)
  | complaints (list : List Complaint)

structure Reply where
  status : Nat
  content : Content
  timed : Bool := false

namespace Reply

def detail (status : Nat) (message : Text) : Reply :=
  ⟨status, .value (.record [(Text.of "detail", .str message)]), false⟩

def ok (value : Value) : Reply := ⟨200, .value value, false⟩

end Reply

end Flowfile.Http
