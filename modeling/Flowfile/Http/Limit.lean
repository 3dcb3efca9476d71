import Flowfile.Http.Basic
import Flowfile.Text.Integer

/-!
The limit on the size of request bodies.

A body is refused by the length that its header declares, or else as soon as more bytes than allowed
have arrived. What arrives after that is not read.
-/

namespace Flowfile.Http

/-- The length that a header declares; what is no integer declares nothing. -/
def declaredLength? (header : Text) : Option Int :=
  let (negative, body) := header.trim.unsigned
  match body.ungrouped? with
  | some digits =>
    if digits.length ≤ digitLimit then some (Text.integerOf negative digits) else none
  | none => none

def declaresTooMuch (limit : Int) (request : Request) : Bool :=
  ((request.header? "content-length").bind declaredLength?).any (fun length => limit < length)

inductive Reading
  | whole (body : Bytes)
  /-- More than is allowed has arrived; the rest was not read. -/
  | tooLarge (unread : List Bytes)

/-- Reads a body of which `total` bytes have arrived, in the pieces `taken`, the last one first. -/
def readChunks (limit : Int) (total : Nat) (taken : List Bytes) : List Bytes → Reading
  | [] => if limit < total then .tooLarge [] else .whole taken.reverse.flatten
  | chunk :: rest =>
    if limit < total + chunk.length then .tooLarge rest
    else readChunks limit (total + chunk.length) (chunk :: taken) rest

def hasBody (method : Text) : Bool :=
  [Text.of "POST", Text.of "PUT", Text.of "PATCH"].contains method

/-- Reads the body of a request within the limit; that of a method without one is not measured. -/
def receive (limit : Int) (request : Request) : Reading :=
  if declaresTooMuch limit request then .tooLarge request.chunks
  else if hasBody request.method then readChunks limit 0 [] request.chunks
  else .whole request.chunks.flatten

def tooLarge (limit : Int) : Reply :=
  .detail 413 (Text.of "Request body too large (max " ++ Text.grouped limit ++ Text.of " bytes)")

def limited {ε : Type} (limit : Int) (handler : Request → Except ε Reply) (request : Request) :
    Except ε Reply :=
  match receive limit request with
  | .tooLarge _ => .ok (tooLarge limit)
  | .whole body => handler { request with chunks := [body] }

end Flowfile.Http
