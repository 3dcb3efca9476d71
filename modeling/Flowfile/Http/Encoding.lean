import Flowfile.Http.Basic

/-! Encodings of JSON bodies. A body tells its encoding by the zero bytes among its first four: the
first characters of JSON are ASCII. -/

namespace Flowfile.Http

inductive Encoding
  | utf8
  | utf16 (bigEndian : Bool)
  | utf32 (bigEndian : Bool)
  deriving DecidableEq

def Encoding.ofBytes : Bytes → Encoding
  | a :: b :: c :: d :: _ =>
    if a = 0 then (if b = 0 then .utf32 true else .utf16 true)
    else if b = 0 then (if c = 0 && d = 0 then .utf32 false else .utf16 false)
    else .utf8
  | [a, b] => if a = 0 then .utf16 true else if b = 0 then .utf16 false else .utf8
  | _ => .utf8

/-- Bytes as numbers of two bytes each; none if one byte is left over. -/
def pairs? (bigEndian : Bool) : Bytes → Option (List Nat)
  | [] => some []
  | [_] => none
  | a :: b :: rest =>
    let unit := if bigEndian then 256 * a.toNat + b.toNat else 256 * b.toNat + a.toNat
    (pairs? bigEndian rest).map (unit :: ·)

def joined? (bigEndian : Bool) : List Nat → Option (List Nat)
  | [] => some []
  | [_] => none
  | a :: b :: rest =>
    let unit := if bigEndian then 65536 * a + b else 65536 * b + a
    (joined? bigEndian rest).map (unit :: ·)

def char? (n : Nat) : Option Char := if n.isValidChar then some (Char.ofNat n) else none

def ofUnits? : List Nat → Option Text
  | [] => some []
  | [unit] => (char? unit).map ([·])
  | high :: low :: rest =>
    if 0xD800 ≤ high && high < 0xDC00 && 0xDC00 ≤ low && low < 0xE000 then
      (ofUnits? rest).map
        (Char.ofNat (0x10000 + 0x400 * (high - 0xD800) + (low - 0xDC00)) :: ·)
    else
      match char? high with
      | some c => (ofUnits? (low :: rest)).map (c :: ·)
      | none => none

/-- The text of a body; none if the body is not encoded as its first bytes promise. A byte order
mark in front of UTF-8 is dropped. -/
def decode? (body : Bytes) : Option Text :=
  match Encoding.ofBytes body with
  | .utf8 =>
    (String.fromUTF8? ⟨body.toArray⟩).map fun text =>
      match text.toList with
      | '\uFEFF' :: rest => rest
      | whole => whole
  | .utf16 bigEndian => (pairs? bigEndian body).bind ofUnits?
  | .utf32 bigEndian =>
    ((pairs? bigEndian body).bind (joined? bigEndian)).bind fun units => units.mapM char?

end Flowfile.Http
