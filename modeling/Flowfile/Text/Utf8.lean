import Flowfile.Text.Printable

/-!
Where bytes stop being the UTF-8 encoding of a text.

A character is a lead byte and up to three continuation bytes. The bounds of the first continuation
byte depend on the lead byte, so that no character has two encodings and no surrogate has one.
-/

namespace Flowfile.Text.Utf8

inductive Reason
  | badStart
  | badContinuation
  | truncated
  deriving DecidableEq

def Reason.message : Reason → String
  | .badStart => "invalid start byte"
  | .badContinuation => "invalid continuation byte"
  | .truncated => "unexpected end of data"

structure Fault where
  start : Nat
  size : Nat
  lead : Nat
  reason : Reason
  deriving DecidableEq

def Fault.message (fault : Fault) : Text :=
  let place :=
    if fault.size = 1 then
      Text.of "byte 0x" ++ hexPadded 2 fault.lead ++ Text.of " in position " ++
        Text.ofNat fault.start
    else
      Text.of "bytes in position " ++ Text.ofNat fault.start ++ '-' ::
        Text.ofNat (fault.start + fault.size - 1)
  Text.of "'utf-8' codec can't decode " ++ place ++ Text.of ": " ++ Text.of fault.reason.message

/-- Least and greatest value of each byte that has to follow a lead byte; none if a character cannot
start with it. -/
def continuations? (lead : Nat) : Option (List (Nat × Nat)) :=
  let any := (0x80, 0xBF)
  if lead < 0x80 then some []
  else if lead < 0xC2 then none
  else if lead < 0xE0 then some [any]
  else if lead = 0xE0 then some [(0xA0, 0xBF), any]
  else if lead = 0xED then some [(0x80, 0x9F), any]
  else if lead < 0xF0 then some [any, any]
  else if lead = 0xF0 then some [(0x90, 0xBF), any, any]
  else if lead < 0xF4 then some [any, any, any]
  else if lead = 0xF4 then some [(0x80, 0x8F), any, any]
  else none

/-- A character that has begun: its lead byte, how many bytes it has so far and what must follow. -/
structure Open where
  lead : Nat
  size : Nat
  awaited : List (Nat × Nat)

/-- The first fault in the bytes from `index` on; `begun` is the character that they go on with. -/
def faultFrom : (index : Nat) → (begun : Option Open) → List Nat → Option Fault
  | index, some ⟨lead, size, _ :: _⟩, [] => some ⟨index - size, size, lead, .truncated⟩
  | _, _, [] => none
  | index, some ⟨lead, size, (least, greatest) :: awaited⟩, byte :: rest =>
    if least ≤ byte && byte ≤ greatest then faultFrom (index + 1) (some ⟨lead, size + 1, awaited⟩) rest
    else some ⟨index - size, size, lead, .badContinuation⟩
  | index, _, byte :: rest =>
    match continuations? byte with
    | some awaited => faultFrom (index + 1) (some ⟨byte, 1, awaited⟩) rest
    | none => some ⟨index, 1, byte, .badStart⟩

def fault? (bytes : List Nat) : Option Fault := faultFrom 0 none bytes

end Flowfile.Text.Utf8
