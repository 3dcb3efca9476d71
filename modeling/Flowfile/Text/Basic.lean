/-!
Text as a sequence of code points.

Every offset of the library counts code points, so a text is the list of its characters and an
offset is a position in that list.
-/

namespace Flowfile

abbrev Text := List Char

namespace Text

abbrev of (s : String) : Text := s.toList

/-- Positions `first` up to and without `last`. -/
def slice (text : Text) (first last : Nat) : Text := (text.drop first).take (last - first)

/-- The pieces between occurrences of `separator`; there is always at least one. -/
def splitOn (separator : Char) : Text → List Text
  | [] => [[]]
  | c :: rest =>
    match splitOn separator rest with
    | [] => [[c]]
    | piece :: pieces => if c = separator then [] :: piece :: pieces else (c :: piece) :: pieces

def joinWith (separator : Text) : List Text → Text
  | [] => []
  | [piece] => piece
  | piece :: pieces => piece ++ separator ++ joinWith separator pieces

def dotted (segments : List Text) : Text := joinWith ['.'] segments

def search? (pattern : Text) : Text → Option Nat
  | [] => if pattern.isEmpty then some 0 else none
  | c :: rest =>
    if pattern.isPrefixOf (c :: rest) then some 0 else (search? pattern rest).map (· + 1)

def hasInfix (pattern text : Text) : Bool := (search? pattern text).isSome

def lower (text : Text) : Text := text.map Char.toLower

def isAsciiDigit (c : Char) : Bool := '0' ≤ c && c ≤ '9'

def isAsciiLetter (c : Char) : Bool := ('a' ≤ c && c ≤ 'z') || ('A' ≤ c && c ≤ 'Z')

def isHexDigit (c : Char) : Bool :=
  isAsciiDigit c || ('a' ≤ c && c ≤ 'f') || ('A' ≤ c && c ≤ 'F')

def isDigits (text : Text) : Bool := !text.isEmpty && text.all isAsciiDigit

def digitValue (c : Char) : Nat :=
  if isAsciiDigit c then c.toNat - '0'.toNat
  else if 'a' ≤ c && c ≤ 'f' then c.toNat - 'a'.toNat + 10
  else if 'A' ≤ c && c ≤ 'F' then c.toNat - 'A'.toNat + 10
  else 0

def appendDigits (base total : Nat) (digits : Text) : Nat :=
  digits.foldl (fun total c => total * base + digitValue c) total

/-- Value of a run of digits that is halved so many times, so that factors are of one size. -/
def readHalves (base : Nat) : (halvings : Nat) → Text → Nat
  | 0, digits => appendDigits base 0 digits
  | halvings + 1, digits =>
    let middle := digits.length / 2
    readHalves base halvings (digits.take middle) * Nat.pow base (digits.drop middle).length +
      readHalves base halvings (digits.drop middle)

def readDigits (base : Nat) (digits : Text) : Nat :=
  readHalves base (Nat.log2 (digits.length / 64)) digits

theorem appendDigits_eq (base total : Nat) (digits : Text) :
    appendDigits base total digits =
      total * Nat.pow base digits.length + appendDigits base 0 digits := by
  induction digits generalizing total with
  | nil => simp [appendDigits]
  | cons c digits ih =>
    have step (start : Nat) : appendDigits base start (c :: digits) =
        appendDigits base (start * base + digitValue c) digits := rfl
    have power : Nat.pow base (c :: digits).length = Nat.pow base digits.length * base := rfl
    rw [step, step, ih, ih (0 * base + digitValue c), power]
    simp only [Nat.zero_mul, Nat.zero_add, Nat.add_mul, Nat.add_assoc, Nat.mul_assoc]
    rw [Nat.mul_comm base]

theorem appendDigits_append (base : Nat) (high low : Text) :
    appendDigits base 0 (high ++ low) =
      appendDigits base 0 high * Nat.pow base low.length + appendDigits base 0 low := by
  rw [← appendDigits_eq]
  simp [appendDigits, List.foldl_append]

theorem readHalves_eq (base halvings : Nat) (digits : Text) :
    readHalves base halvings digits = appendDigits base 0 digits := by
  induction halvings generalizing digits with
  | zero => rfl
  | succ halvings ih =>
    rw [readHalves, ih, ih, ← appendDigits_append, List.take_append_drop]

theorem readDigits_eq (base : Nat) (digits : Text) :
    readDigits base digits =
      digits.foldl (fun total c => total * base + digitValue c) 0 :=
  readHalves_eq base _ digits

def ofNat (n : Nat) : Text := Nat.toDigits 10 n

def ofInt : Int → Text
  | .ofNat n => ofNat n
  | .negSucc n => '-' :: ofNat (n + 1)

/-- Order by code points, a proper initial part first. -/
def before : Text → Text → Bool
  | _, [] => false
  | [], _ :: _ => true
  | a :: left, b :: right => if a = b then before left right else a < b

end Text

end Flowfile
