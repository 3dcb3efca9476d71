import Flowfile.Http.Encoding
import Flowfile.Json.Reader

/-!
Request bodies: JSON mappings whose fields are checked one by one. All faults of a body are
reported, in the order of the fields.
-/

namespace Flowfile.Http

inductive OffsetUnit
  | utf16 | codepoint
  deriving DecidableEq

def bodyPlace : Segment := .key (Text.of "body")

def complaintAt (field : String) (fault : Fault) (received : Value) : Complaint :=
  ⟨[bodyPlace, .key (Text.of field)], fault, received⟩

def mediaType (header : Text) : Text × Text :=
  match Text.splitOn '/' (Text.strip (header.takeWhile (· ≠ ';'))).lower with
  | [type, subtype] => (type, subtype)
  | _ => (Text.of "text", Text.of "plain")

def isJson (request : Request) : Bool :=
  match request.header? "content-type" with
  | none => false
  | some header =>
    let (type, subtype) := mediaType header
    type = Text.of "application" &&
      (subtype = Text.of "json" || (Text.of "+json").isSuffixOf subtype)

inductive BodyFault
  /-- It is no text, or holds a number of too many digits. -/
  | unreadable
  | complaint (complaint : Complaint)

/-- A body as a value. An empty body has no value, and one that is not declared to be JSON is not
read: it counts as no mapping. -/
def bodyValue (request : Request) (body : Bytes) : Except BodyFault (Option Value) :=
  if body.isEmpty then .ok none
  else if isJson request then
    match decode? body with
    | none => .error .unreadable
    | some text =>
      match Json.readWhole text with
      | .ok value => .ok (some value)
      | .error (.tooManyDigits _, _) => .error .unreadable
      | .error (_, position) =>
        .error (.complaint ⟨[bodyPlace, .index position], .badJson, .record []⟩)
  else .ok (some .null)

def bodyFields (value : Option Value) : Except Complaint Value :=
  match value with
  | none => .error ⟨[bodyPlace], .missing, .null⟩
  | some (.map origin entries) => .ok (.map origin entries)
  | some received => .error ⟨[bodyPlace], .wrongType, received⟩

def readText (fields : Value) : Except Complaint Text :=
  match fields.get? (Text.of "text") with
  | none => .error (complaintAt "text" .missing fields)
  | some (.str text) => .ok text
  | some received => .error (complaintAt "text" .notText received)

def readOffset (fields : Value) : Except Complaint Int :=
  match fields.get? (Text.of "offset") with
  | none => .error (complaintAt "offset" .missing fields)
  | some received =>
    received.toInteger.mapError fun fault => complaintAt "offset" (.integer fault) received

def readUnit (fields : Value) : Except Complaint OffsetUnit :=
  match fields.get? (Text.of "offset_encoding") with
  | none => .ok .utf16
  | some received =>
    match received with
    | .str name =>
      if name = Text.of "utf-16" then .ok .utf16
      else if name = Text.of "codepoint" then .ok .codepoint
      else .error (complaintAt "offset_encoding" .unknownChoice received)
    | _ => .error (complaintAt "offset_encoding" .unknownChoice received)

def complaintOf {α : Type} : Except Complaint α → List Complaint
  | .ok _ => []
  | .error complaint => [complaint]

structure TextForm where
  text : Text
  unit : OffsetUnit

structure OffsetForm where
  text : Text
  offset : Int
  unit : OffsetUnit

def readTextForm (value : Option Value) : Except (List Complaint) TextForm :=
  match bodyFields value with
  | .error complaint => .error [complaint]
  | .ok fields =>
    match readText fields, readUnit fields with
    | .ok text, .ok unit => .ok ⟨text, unit⟩
    | text, unit => .error (complaintOf text ++ complaintOf unit)

def readOffsetForm (value : Option Value) : Except (List Complaint) OffsetForm :=
  match bodyFields value with
  | .error complaint => .error [complaint]
  | .ok fields =>
    match readText fields, readOffset fields, readUnit fields with
    | .ok text, .ok offset, .ok unit => .ok ⟨text, offset, unit⟩
    | text, offset, unit => .error (complaintOf text ++ complaintOf offset ++ complaintOf unit)

end Flowfile.Http
